import Kinewright.Edits.Rolls

/-!
# Slides

`operation.rs`: a slide moves a clip between the clips that it meets. The clip on its left gets another end, and the clip
on its right another start: unlike a roll, it takes the origin of a span back from the end of the span.
-/

namespace Kinewright.Edits

open Fallible Model List Except

variable {doc after next : Document} {found : Track} {clips before rest : List Clip} {left middle right clip : Clip} {id : ClipId}
  {at_ out stop old newEnd leftDuration duration rightDuration delta : TimeCode} {range : FrameRange}

/-! ## Slid clips -/

/-- The range of a span on the right of a clip that slid: its end never moves. -/
def slidSpan (source : FrameRange) (duration : TimeCode) : Option FrameRange :=
  (checkedSub source.stop duration).map fun start => { source with start }

theorem slidSpan_eq_some {source : FrameRange} : slidSpan source duration = some range ↔
    range.start.toInt = source.stop.toInt - duration.toInt ∧ range.stop = source.stop := by
  rw [slidSpan, Option.map_eq_some_iff]
  constructor
  · rintro ⟨start, hstart, rfl⟩
    exact ⟨checkedSub_eq_some.mp hstart, rfl⟩
  · rintro ⟨hstart, hstop⟩
    exact ⟨range.start, checkedSub_eq_some.mpr hstart, by rw [← hstop]⟩

/-- What `slide_clip` computes. -/
structure SlideOf (doc : Document) (left middle right : Clip) (at_ stop out newEnd leftDuration duration rightDuration : TimeCode)
    (range : FrameRange) : Prop where
  lasts : doc.clipDuration middle = .ok duration
  newEnd_eq : newEnd.toInt = at_.toInt + duration.toInt
  inside : left.timelineStart < at_ ∧ newEnd < stop
  leftDuration_eq : leftDuration.toInt = at_.toInt - left.timelineStart.toInt
  rightDuration_eq : rightDuration.toInt = stop.toInt - newEnd.toInt
  out_eq : sourceOut doc left at_ leftDuration = .ok out
  range_eq : sourceIn doc right newEnd rightDuration (slidSpan right.sourceRange rightDuration) = .ok range

/-- The clip in its other place. -/
def slid (middle : Clip) (at_ : TimeCode) : Clip := { middle with timelineStart := at_ }

@[simp] theorem slid_id (middle : Clip) (at_ : TimeCode) : (slid middle at_).id = middle.id := rfl

/-- The three clips after the slide. -/
def slidWindow (left middle right : Clip) (at_ out newEnd leftDuration rightDuration : TimeCode) (range : FrameRange) :
    List Clip :=
  [resized left out leftDuration, slid middle at_, restarted right newEnd range rightDuration (at_ - middle.timelineStart)]

theorem set_window_three (before rest : List Clip) (left middle right left' middle' right' : Clip) :
    (((before ++ [left, middle, right] ++ rest).set before.length left').set (before.length + 1) middle').set
      (before.length + 1 + 1) right' = before ++ [left', middle', right'] ++ rest := by
  have hlast : before.length + 1 + 1 - before.length = 2 := by omega
  rw [append_assoc, set_append_right _ _ (Nat.le_refl _), set_append_right _ _ (Nat.le_succ _),
    set_append_right _ _ (by omega), hlast]
  simp

/-- Three clips that follow each other on a track, and what is around them. -/
theorem exists_window_three {index : ℕ} (hleft : clips[index]? = some left) (hmiddle : clips[index + 1]? = some middle)
    (hright : clips[index + 1 + 1]? = some right) :
    ∃ before rest, clips = before ++ [left, middle, right] ++ rest ∧ before.length = index := by
  obtain ⟨hlt, -⟩ := List.getElem?_eq_some_iff.mp hleft
  refine ⟨clips.take index, clips.drop (index + 1 + 1 + 1), ?_, length_take_of_le hlt.le⟩
  rw [append_assoc, cons_append, cons_append, singleton_append, ← drop_eq_cons hright,
    ← drop_eq_cons hmiddle, ← drop_eq_cons hleft, take_append_drop]

theorem length_slidSpan {source : FrameRange} :
    ∀ span ∈ slidSpan source duration, duration.toInt = span.stop.toInt - span.start.toInt := by
  intro span hspan
  obtain ⟨hstart, hstop⟩ := slidSpan_eq_some.mp hspan
  rw [hstop]
  omega

theorem slideClip_ok (hdistinct : Distinct doc) (h : slideClip doc id at_ = .ok next) :
    ∃ found before left middle right rest stop out newEnd leftDuration duration rightDuration range, middle.id = id ∧
      Meets doc found left middle ∧ Meets doc found middle right ∧ found.clips = before ++ [left, middle, right] ++ rest ∧
      doc.clipEnd right = .ok stop ∧
      SlideOf doc left middle right at_ stop out newEnd leftDuration duration rightDuration range ∧
      next = withClips doc found.id
        (before ++ slidWindow left middle right at_ out newEnd leftDuration rightDuration range ++ rest) := by
  rw [slideClip] at h
  simp only [bind_eq_ok, Prod.exists, okOr_eq_ok, checkedSub_eq_some, checkedAdd_eq_some, refuse_eq_ok, ok.injEq,
    not_or, not_not, Int64.not_le] at h
  obtain ⟨middle, hmiddle, left, right, hneighbors, leftEnd, hleftEnd, duration, hduration, middleEnd, hmiddleEnd, stop, hstop,
    newEnd, hnewEnd, ⟨⟩, ⟨rfl, rfl, hafter, hbefore⟩, leftDuration, hleftDuration, out, hout, rightDuration, hrightDuration,
    range, hrange, leftClip, hleftClip, rightClip, hrightClip, rfl⟩ := h
  obtain ⟨hmem, hclip, rfl⟩ := mem_of_placeOf hmiddle
  have htrack := hdistinct.trackOf hmem
  obtain ⟨-, -, hmiddleAt, hset⟩ := hdistinct.placeOf htrack hclip hmiddle
  obtain ⟨hfirst, hleftAt, hrightAt⟩ := neighbors_eq_some hneighbors
  obtain ⟨index, hindex⟩ := Nat.exists_eq_succ_of_ne_zero hfirst
  rw [hindex, Nat.succ_eq_add_one] at hmiddleAt hrightAt hleftAt
  rw [Nat.add_sub_cancel] at hleftAt
  obtain ⟨before, rest, hclips, hlength⟩ := exists_window_three hleftAt hmiddleAt hrightAt
  -- both neighbours last as long as their boundaries were searched for
  obtain ⟨_, hlasts, rfl⟩ := surviveClipEdit_ok hleftClip
  obtain rfl := ok.inj ((clipDuration_sourceOut hout).symm.trans hlasts)
  obtain ⟨_, hlasts', rfl⟩ := surviveClipEdit_ok hrightClip
  obtain rfl := ok.inj ((clipDuration_sourceIn hrange length_slidSpan).symm.trans hlasts')
  refine ⟨middle.track, before, left, middle.clip, right, rest, stop, out, newEnd, leftDuration, duration, rightDuration, range,
    rfl, ⟨htrack, mem_of_getElem? hleftAt, hclip, hleftEnd⟩, ⟨htrack, hclip, mem_of_getElem? hrightAt, hmiddleEnd⟩,
    hclips, hstop, ⟨hduration, hnewEnd, ⟨hafter, hbefore⟩, hleftDuration, hrightDuration, hout, hrange⟩, ?_⟩
  rw [hset, hindex, Nat.succ_eq_add_one, Nat.add_sub_cancel, hclips, ← hlength, set_window_three]
  rfl

/-- A slide that can be computed is made. -/
theorem slideClip_of (hdistinct : Distinct doc) (hleft : Meets doc found left middle) (hright : Meets doc found middle right)
    (hclips : found.clips = before ++ [left, middle, right] ++ rest) (hstop : doc.clipEnd right = .ok stop)
    (h : SlideOf doc left middle right at_ stop out newEnd leftDuration duration rightDuration range) :
    slideClip doc middle.id at_ = .ok (withClips doc found.id
      (before ++ slidWindow left middle right at_ out newEnd leftDuration rightDuration range ++ rest)) := by
  have htrack := hleft.track
  obtain ⟨place, hplace⟩ := exists_placeOf (mem_of_trackOf htrack) hleft.rightMem
  obtain ⟨hfound, hclip, hat, hset⟩ := hdistinct.placeOf htrack hleft.rightMem hplace
  have hindex : place.clipIndex = before.length + 1 :=
    index_eq (hdistinct.clips_nodup htrack) hat (by rw [hclips]; simp)
  have hnext : (before ++ [left, middle, right] ++ rest)[before.length + 1 + 1]? = some right := by
    have hlast : before.length + 1 + 1 - before.length = 2 := by omega
    rw [append_assoc, getElem?_append_right (by omega), hlast]
    rfl
  have hneighbors : neighbors place = some (left, right) := by
    rw [neighbors, hindex, hfound, hclips, hnext]
    simp
  obtain ⟨hafter, hbefore⟩ := h.inside
  rw [slideClip]
  simp only [bind_eq_ok, Prod.exists, okOr_eq_ok, checkedSub_eq_some, checkedAdd_eq_some, refuse_eq_ok, ok.injEq,
    not_or, not_not, Int64.not_le]
  refine ⟨place, hplace, left, right, hneighbors, middle.timelineStart, hleft.meets, duration, ?_, right.timelineStart, ?_, stop,
    hstop, newEnd, h.newEnd_eq, (), ?_, leftDuration, h.leftDuration_eq, out, h.out_eq, rightDuration, h.rightDuration_eq,
    range, h.range_eq, resized left out leftDuration, surviveClipEdit_eq (clipDuration_sourceOut h.out_eq),
    restarted right newEnd range rightDuration (at_ - middle.timelineStart), ?_, ?_⟩
  · rw [hclip]
    exact h.lasts
  · rw [hclip]
    exact hright.meets
  · rw [hclip]
    exact ⟨rfl, rfl, hafter, hbefore⟩
  · rw [hclip]
    exact surviveClipEdit_eq (clipDuration_sourceIn h.range_eq length_slidSpan)
  · rw [hset, hindex, Nat.add_sub_cancel, hfound, hclips, hclip, set_window_three]
    rfl

/-! ## Accepted slides -/

/-- The clip is in the other place with its range, the outer boundaries are where they were, and the three clips meet. -/
def PlaceMoves (doc after : Document) (leftId id rightId : ClipId) (at_ : TimeCode) : Prop :=
  ∃ left middle right left' middle' right' stop,
    (doc.clip leftId = some left ∧ doc.clip id = some middle ∧ doc.clip rightId = some right) ∧
    (after.clip leftId = some left' ∧ after.clip id = some middle' ∧ after.clip rightId = some right') ∧
    left'.timelineStart = left.timelineStart ∧ after.clipEnd left' = .ok at_ ∧
    middle'.timelineStart = at_ ∧ middle'.sourceRange = middle.sourceRange ∧
    after.clipEnd middle' = .ok right'.timelineStart ∧
    doc.clipEnd right = .ok stop ∧ after.clipEnd right' = .ok stop ∧
    otherClips [leftId, id, rightId] after = otherClips [leftId, id, rightId] doc

/-- A slide that was accepted. -/
structure Slide (doc after : Document) (found : Track) (before : List Clip) (left middle right : Clip) (rest : List Clip)
    (at_ stop out newEnd leftDuration duration rightDuration : TimeCode) (range : FrameRange) : Prop where
  valid : doc.Valid
  validAfter : after.Valid
  meetsLeft : Meets doc found left middle
  meetsRight : Meets doc found middle right
  clips : found.clips = before ++ [left, middle, right] ++ rest
  stop_eq : doc.clipEnd right = .ok stop
  slides : SlideOf doc left middle right at_ stop out newEnd leftDuration duration rightDuration range
  left : Left doc after found
    (before ++ slidWindow left middle right at_ out newEnd leftDuration rightDuration range ++ rest)

theorem exists_slide (h : (Operation.slideClip id at_).apply doc = .ok after) :
    ∃ found before left middle right rest stop out newEnd leftDuration duration rightDuration range, middle.id = id ∧
      Slide doc after found before left middle right rest at_ stop out newEnd leftDuration duration rightDuration range := by
  obtain ⟨edited, happlied⟩ := applied_of_apply h
  have hkeep : ({ doc, events := [] } : Draft).keep (slideClip · id at_) = .ok edited := happlied.edits
  have hslide : slideClip doc id at_ = .ok edited.doc := keep_eq hkeep
  obtain ⟨found, before, left, middle, right, rest, stop, out, newEnd, leftDuration, duration, rightDuration, range, hid, hleft,
    hright, hclips, hstop, hslides, hedited⟩ := slideClip_ok happlied.distinct hslide
  exact ⟨found, before, left, middle, right, rest, stop, out, newEnd, leftDuration, duration, rightDuration, range, hid,
    happlied.before, happlied.after, hleft, hright, hclips, hstop, hslides, happlied.left hleft.track hedited⟩

theorem clipEnd_slid (hduration : doc.clipDuration middle = .ok duration) (hstop : newEnd.toInt = at_.toInt + duration.toInt) :
    doc.clipEnd (slid middle at_) = .ok newEnd :=
  clipEnd_of_duration (by exact hduration) hstop

theorem SlideOf.clipEnd_restarted (h : SlideOf doc left middle right at_ stop out newEnd leftDuration duration rightDuration range) :
    doc.clipEnd (restarted right newEnd range rightDuration delta) = .ok stop :=
  Edits.clipEnd_restarted (clipDuration_sourceIn h.range_eq length_slidSpan) h.rightDuration_eq

theorem Slide.placeMoves
    (h : Slide doc after found before left middle right rest at_ stop out newEnd leftDuration duration rightDuration range) :
    PlaceMoves doc after left.id middle.id right.id at_ := by
  have htrack := h.meetsLeft.track
  have hmem := mem_of_trackOf htrack
  have hslides := h.slides
  have hleft : after.clip (resized left out leftDuration).id = some (resized left out leftDuration) :=
    h.left.clip_eq htrack h.validAfter (by simp [slidWindow])
  have hmiddle : after.clip (slid middle at_).id = some (slid middle at_) :=
    h.left.clip_eq htrack h.validAfter (by simp [slidWindow])
  have hright : after.clip (restarted right newEnd range rightDuration (at_ - middle.timelineStart)).id
      = some (restarted right newEnd range rightDuration (at_ - middle.timelineStart)) :=
    h.left.clip_eq htrack h.validAfter (by simp [slidWindow])
  refine ⟨left, middle, right, _, _, _, stop, ⟨?_, ?_, ?_⟩, ⟨hleft, hmiddle, hright⟩, rfl, ?_, rfl, rfl, ?_, h.stop_eq, ?_, ?_⟩
  · exact h.valid.fits.clip_eq_some (mem_clips hmem h.meetsLeft.leftMem)
  · exact h.valid.fits.clip_eq_some (mem_clips hmem h.meetsLeft.rightMem)
  · exact h.valid.fits.clip_eq_some (mem_clips hmem h.meetsRight.rightMem)
  · rw [h.left.footage.clipEnd]
    exact clipEnd_resized hslides.out_eq hslides.leftDuration_eq
  · rw [h.left.footage.clipEnd]
    exact clipEnd_slid hslides.lasts hslides.newEnd_eq
  · rw [h.left.footage.clipEnd]
    exact hslides.clipEnd_restarted
  · refine h.left.others htrack ?_
    rw [h.clips]
    exact filter_window (by simp) (by simp [slidWindow])

/-! ## Slides beside spans -/

/-- A clip without fades and without a transition only needs automation that can be moved. -/
def WithoutFades : ClipContent → Prop
  | .title title => title.fadeInFrames = 0 ∧ title.fadeOutFrames = 0
  | _ => True

theorem affords_withoutFades (hfades : WithoutFades clip.content) (htransition : clip.transitionIn = none)
    (hpos : 0 < duration.toInt) : Affords clip delta duration ↔
      (∀ effect ∈ clip.effects, effect.Within delta) ∧ ∀ curve ∈ clip.enabledCurve, KeysWithin delta curve := by
  constructor
  · exact fun h => ⟨h.effects, h.enabled⟩
  · rintro ⟨heffects, henabled⟩
    refine ⟨?_, by simp [htransition], heffects, henabled⟩
    have hle : (0 : TimeCode) ≤ duration := Int64.le_iff_toInt_le.mpr hpos.le
    cases hcontent : clip.content with
    | title title =>
      rw [hcontent] at hfades
      obtain ⟨hin, hout⟩ := hfades
      rw [FadesWithin, hin, hout]
      exact ⟨⟨by decide, by decide⟩, hle, hle⟩
    | _ => trivial

/-- A clip is valid in another place. -/
theorem clipValid_slid (h : ClipValid doc found middle duration stop) (hstart : 0 ≤ at_.toInt)
    (hstop : newEnd.toInt = at_.toInt + duration.toInt) : ClipValid doc found (slid middle at_) duration newEnd where
  start := hstart
  content := h.content
  speed := h.speed
  duration_eq := h.duration_eq
  pos := h.pos
  stop_eq := hstop
  data := h.data
  enabled := h.enabled

/-- What a slide needs beside a span on the right: the span has frames before its end, the clip on the left affords its new
length, and the automation of the span can be moved. -/
structure SlideFits (left middle right : Clip) (at_ duration stop : TimeCode) : Prop where
  origin : stop.toInt - (at_.toInt + duration.toInt) ≤ right.sourceRange.stop.toInt
  left : FadesWithin (at_ - left.timelineStart) left.content ∧
    ∀ transition ∈ left.transitionIn, transition.duration ≤ at_ - left.timelineStart
  effects : ∀ effect ∈ right.effects, effect.Within (at_ - middle.timelineStart)
  enabled : ∀ curve ∈ right.enabledCurve, KeysWithin (at_ - middle.timelineStart) curve

/-- Clips that are not apart are the same clip. -/
theorem eq_of_clipEnd (hvalid : doc.Valid) (htrack : trackOf doc found.id = .ok found) (hclip : clip ∈ found.clips)
    (hleft : left ∈ found.clips) (hstop : doc.clipEnd clip = .ok stop) (hstop' : doc.clipEnd left = .ok old)
    (hlt : left.timelineStart < stop) (hlt' : clip.timelineStart < old) : clip = left := by
  by_contra hne
  have hapart := apartOn_of_apart (hvalid.fits.apart found (mem_of_trackOf htrack))
  rcases hapart clip hclip left hleft hne stop old hstop hstop' with hle | hle
  · exact Int64.lt_irrefl (Int64.lt_of_lt_of_le hlt hle)
  · exact Int64.lt_irrefl (Int64.lt_of_lt_of_le hlt' hle)

/-- A clip that has a track is on no other. -/
theorem track_eq {found' : Track} (hdistinct : Distinct doc) (htrack : trackOf doc found.id = .ok found)
    (htrack' : trackOf doc found'.id = .ok found') (hclip : clip ∈ found.clips) (hclip' : clip ∈ found'.clips) :
    found' = found := by
  obtain ⟨place, hplace⟩ := exists_placeOf (mem_of_trackOf htrack) hclip
  obtain ⟨hfound, -⟩ := hdistinct.placeOf htrack hclip hplace
  obtain ⟨hfound', -⟩ := hdistinct.placeOf htrack' hclip' hplace
  exact hfound'.symm.trans hfound

section Spans

variable (hvalid : doc.Valid) (hleft : Meets doc found left middle) (hright : Meets doc found middle right)

include hvalid hleft hright

/-- A slide that was accepted moved the clip between its neighbours. -/
theorem exists_slide_between (h : (Operation.slideClip middle.id at_).apply doc = .ok after) :
    ∃ before rest stop out newEnd leftDuration duration rightDuration range,
      Slide doc after found before left middle right rest at_ stop out newEnd leftDuration duration rightDuration range := by
  obtain ⟨found', before, left', middle', right', rest, stop, out, newEnd, leftDuration, duration, rightDuration, range, hid,
    hslide⟩ := exists_slide h
  have htrack := hleft.track
  have hmem := mem_of_trackOf htrack
  have hmem' := mem_of_trackOf hslide.meetsLeft.track
  obtain rfl := hvalid.fits.eq_of_id (mem_clips hmem' hslide.meetsLeft.rightMem) (mem_clips hmem hleft.rightMem) hid
  obtain rfl := track_eq (distinct_of_fits hvalid.fits) htrack hslide.meetsLeft.track hleft.rightMem hslide.meetsLeft.rightMem
  -- two clips that both meet the clip are not apart
  obtain rfl : left' = left := by
    obtain ⟨_, hstop, hlt⟩ := exists_clipEnd hvalid htrack hleft.leftMem
    obtain ⟨_, hstop', hlt'⟩ := exists_clipEnd hvalid htrack hslide.meetsLeft.leftMem
    obtain rfl := ok.inj (hleft.meets.symm.trans hstop)
    obtain rfl := ok.inj (hslide.meetsLeft.meets.symm.trans hstop')
    exact eq_of_clipEnd hvalid htrack hslide.meetsLeft.leftMem hleft.leftMem hstop' hstop hlt hlt'
  obtain rfl : right' = right := by
    obtain ⟨_, hstop, hlt⟩ := exists_clipEnd hvalid htrack hright.rightMem
    obtain ⟨_, hstop', hlt'⟩ := exists_clipEnd hvalid htrack hslide.meetsRight.rightMem
    have hsame := ok.inj (hright.meets.symm.trans hslide.meetsRight.meets)
    exact eq_of_clipEnd hvalid htrack hslide.meetsRight.rightMem hright.rightMem hstop' hstop (hsame ▸ hlt') (hsame ▸ hlt)
  exact ⟨before, rest, stop, out, newEnd, leftDuration, duration, rightDuration, range, hslide⟩

/-- Clips that meet one after the other follow each other on their track. -/
theorem exists_between_three : ∃ before rest, found.clips = before ++ [left, middle, right] ++ rest := by
  obtain ⟨before, after, hclips⟩ := hleft.between hvalid
  obtain ⟨before', rest, hclips'⟩ := hright.between hvalid
  have hnodup := (distinct_of_fits hvalid.fits).clips_nodup hleft.track
  have hleftAt : found.clips[before.length]? = some left := by
    rw [hclips]
    simp
  have hmiddleAt : found.clips[before.length + 1]? = some middle := by
    rw [hclips]
    simp
  have hmiddleAt' : found.clips[before'.length]? = some middle := by
    rw [hclips']
    simp
  have hrightAt : found.clips[before.length + 1 + 1]? = some right := by
    rw [index_eq hnodup hmiddleAt hmiddleAt', hclips']
    simp
  obtain ⟨before, rest, hwindow, -⟩ := exists_window_three hleftAt hmiddleAt hrightAt
  exact ⟨before, rest, hwindow⟩

variable (hstop : doc.clipEnd right = .ok stop) (hspan : right.content ≠ .media) (hfades : WithoutFades right.content)
  (htransition : right.transitionIn = none) (hduration : doc.clipDuration middle = .ok duration)
  (hinside : left.timelineStart < at_ ∧ at_.toInt + duration.toInt < stop.toInt)

include hstop hspan hduration hinside

theorem slideFits_of_apply (h : (Operation.slideClip middle.id at_).apply doc = .ok after) :
    SlideFits left middle right at_ duration stop := by
  obtain ⟨before, rest, stop', out, newEnd, leftDuration, duration', rightDuration, range, hslide⟩ :=
    exists_slide_between hvalid hleft hright h
  have hmem := mem_of_trackOf hleft.track
  have hslides := hslide.slides
  obtain rfl := ok.inj (hstop.symm.trans hslide.stop_eq)
  obtain rfl := ok.inj (hduration.symm.trans hslides.lasts)
  obtain ⟨_, leftEnd, hleftFits⟩ := hvalid.clipValid hmem hleft.leftMem
  obtain ⟨_, stop', hrightFits⟩ := hvalid.clipValid hmem hright.rightMem
  obtain rfl := ok.inj (hstop.symm.trans hrightFits.clipEnd)
  have hstart := hleftFits.start
  obtain ⟨hafter, hbefore⟩ := hinside
  rw [Int64.lt_iff_toInt_lt] at hafter
  have hlength := toInt_sub_of_nonneg (a := at_) (by omega) hstart
  have hnewEnd := hslides.newEnd_eq
  obtain rfl : leftDuration = at_ - left.timelineStart := by
    rw [← Int64.toInt_inj, hslides.leftDuration_eq, hlength]
  -- the range of the span starts at a frame
  obtain ⟨hrangeStart, hrangeStop⟩ := slidSpan_eq_some.mp ((sourceIn_span hspan).mp hslides.range_eq)
  have hrightDuration := hslides.rightDuration_eq
  obtain ⟨_, _, hrestarted⟩ : ∃ duration' stop', ClipValid doc found
      (restarted right newEnd range rightDuration (at_ - middle.timelineStart)) duration' stop' :=
    hslide.left.valid _ (by simp [slidWindow])
  have hranges : Ranges range := ranges_of_validateContent hrestarted.content
  have hfirst := hranges.1
  have hlasts := clipDuration_sourceIn hslides.range_eq length_slidSpan
  have hmiddleStart : 0 ≤ newEnd.toInt := hrestarted.start
  have haffords := (exists_clipValid_restarted hrightFits hspan hlasts hranges hmiddleStart (by omega) hrightDuration).mp
    ⟨_, _, hrestarted⟩
  refine ⟨by omega, ?_, haffords.effects, haffords.enabled⟩
  refine (exists_clipValid_resized hleftFits hslides.out_eq (by omega) hlength).mp ?_
  exact hslide.left.valid _ (by simp [slidWindow])

include hfades htransition

/-- A slide beside a span that fits is accepted. -/
theorem exists_apply_slideClip (hout : sourceOut doc left at_ (at_ - left.timelineStart) = .ok out)
    (h : SlideFits left middle right at_ duration stop) :
    ∃ after, (Operation.slideClip middle.id at_).apply doc = .ok after := by
  have htrack := hleft.track
  have hmem := mem_of_trackOf htrack
  obtain ⟨_, leftEnd, hleftFits⟩ := hvalid.clipValid hmem hleft.leftMem
  obtain ⟨duration', middleEnd, hmiddleFits⟩ := hvalid.clipValid hmem hright.leftMem
  obtain ⟨old, stop', hrightFits⟩ := hvalid.clipValid hmem hright.rightMem
  obtain rfl := ok.inj (hduration.symm.trans hmiddleFits.duration_eq)
  obtain rfl := ok.inj (hstop.symm.trans hrightFits.clipEnd)
  have hstart := hleftFits.start
  have hpos := hmiddleFits.pos
  have horigin := h.origin
  have hmax := stop.toInt_lt
  obtain ⟨hafter, hbefore⟩ := hinside
  rw [Int64.lt_iff_toInt_lt] at hafter
  have hlength := toInt_sub_of_nonneg (a := at_) (by omega) hstart
  -- the new end of the clip, and the new start of the range of the span
  obtain ⟨newEnd, -, hnewEnd⟩ := exists_tryFrom_of_lt (n := at_.toInt + duration.toInt) (by omega) (by omega)
  have hrightDuration := toInt_sub_of_nonneg (a := stop) (b := newEnd) (by omega) (by omega)
  obtain ⟨first, -, hfirst⟩ := exists_tryFrom_of_lt (n := right.sourceRange.stop.toInt - (stop - newEnd).toInt) (by omega)
    (by have := right.sourceRange.stop.toInt_lt; omega)
  have hrange : sourceIn doc right newEnd (stop - newEnd) (slidSpan right.sourceRange (stop - newEnd))
      = .ok ⟨first, right.sourceRange.stop⟩ :=
    (sourceIn_span hspan).mpr (slidSpan_eq_some.mpr ⟨hfirst, rfl⟩)
  have hslides : SlideOf doc left middle right at_ stop out newEnd (at_ - left.timelineStart) duration (stop - newEnd)
      ⟨first, right.sourceRange.stop⟩ :=
    ⟨hduration, hnewEnd, ⟨Int64.lt_iff_toInt_lt.mpr hafter, Int64.lt_iff_toInt_lt.mpr (by omega)⟩, hlength, hrightDuration,
      hout, hrange⟩
  have hranges : Ranges ⟨first, right.sourceRange.stop⟩ := by
    refine ⟨?_, ?_⟩
    all_goals
      dsimp only
      omega
  obtain ⟨before, rest, hclips⟩ := exists_between_three hvalid hleft hright
  have hedit := slideClip_of (distinct_of_fits hvalid.fits) hleft hright hclips hstop hslides
  have hedits (draft : Draft) : (Operation.slideClip middle.id at_).edit draft
      = draft.keep (slideClip · middle.id at_) := rfl
  have hleftEnd := clipEnd_resized hout hlength
  have hmiddleEnd := clipEnd_slid hduration hnewEnd
  have hrightEnd : doc.clipEnd (restarted right newEnd ⟨first, right.sourceRange.stop⟩ (stop - newEnd)
      (at_ - middle.timelineStart)) = .ok stop := hslides.clipEnd_restarted
  refine exists_apply_window _ hedits hvalid htrack hclips hedit ?_ ?_ ?_ ?_ (by simp [slidWindow])
  · intro clip hclip
    simp only [slidWindow, mem_cons, not_mem_nil, or_false] at hclip
    rcases hclip with rfl | rfl | rfl
    · exact (exists_clipValid_resized hleftFits hout (by omega) hlength).mpr h.left
    · exact ⟨duration, newEnd, clipValid_slid hmiddleFits (by omega) hnewEnd⟩
    · have hlasts := clipDuration_sourceIn hrange length_slidSpan
      refine (exists_clipValid_restarted hrightFits hspan hlasts hranges (by omega) (by omega) hrightDuration).mpr ?_
      exact (affords_withoutFades hfades htransition (by omega)).mpr ⟨h.effects, h.enabled⟩
  · refine pairwise_cons.mpr ⟨?_, pairwise_pair.mpr fun last hlast => ?_⟩
    · intro clip hclip last hlast
      obtain rfl := ok.inj (hleftEnd.symm.trans hlast)
      rcases mem_pair.mp hclip with rfl | rfl
      · exact Int64.le_refl _
      · exact Int64.le_iff_toInt_le.mpr (by change at_.toInt ≤ newEnd.toInt; omega)
    · obtain rfl := ok.inj (hmiddleEnd.symm.trans hlast)
      exact Int64.le_refl _
  · intro clip hclip
    refine ⟨left, by simp, Int64.le_iff_toInt_le.mpr ?_⟩
    simp only [slidWindow, mem_cons, not_mem_nil, or_false] at hclip
    rcases hclip with rfl | rfl | rfl
    · exact le_refl left.timelineStart.toInt
    · exact hafter.le
    · change left.timelineStart.toInt ≤ newEnd.toInt
      omega
  · intro clip hclip last hlast
    refine ⟨right, by simp, stop, hstop, Int64.le_iff_toInt_le.mpr ?_⟩
    simp only [slidWindow, mem_cons, not_mem_nil, or_false] at hclip
    rcases hclip with rfl | rfl | rfl
    · obtain rfl := ok.inj (hleftEnd.symm.trans hlast)
      omega
    · obtain rfl := ok.inj (hmiddleEnd.symm.trans hlast)
      omega
    · obtain rfl := ok.inj (hrightEnd.symm.trans hlast)
      exact le_refl stop.toInt

end Spans

/-- A slide beside a span is accepted, and moves only the clip and its boundaries, exactly if it fits: to the left, the
span has to have the frames before its origin. -/
theorem slideClip_between_spans (hvalid : doc.Valid) (hleft : Meets doc found left middle) (hright : Meets doc found middle right)
    (hstop : doc.clipEnd right = .ok stop) (hspan : right.content ≠ .media) (hfades : WithoutFades right.content)
    (htransition : right.transitionIn = none) (hduration : doc.clipDuration middle = .ok duration)
    (hinside : left.timelineStart < at_ ∧ at_.toInt + duration.toInt < stop.toInt)
    (hout : sourceOut doc left at_ (at_ - left.timelineStart) = .ok out) :
    (∃ after, (Operation.slideClip middle.id at_).apply doc = .ok after ∧
      PlaceMoves doc after left.id middle.id right.id at_) ↔ SlideFits left middle right at_ duration stop := by
  constructor
  · rintro ⟨after, hafter, -⟩
    exact slideFits_of_apply hvalid hleft hright hstop hspan hduration hinside hafter
  · intro hfits
    obtain ⟨after, hafter⟩ :=
      exists_apply_slideClip hvalid hleft hright hstop hspan hfades htransition hduration hinside hout hfits
    obtain ⟨before, rest, last, out', newEnd, leftDuration, duration', rightDuration, range, hslide⟩ :=
      exists_slide_between hvalid hleft hright hafter
    exact ⟨after, hafter, hslide.placeMoves⟩

/-- A colour of ten frames, from a frame on. -/
def shade (id : ClipId) (start : TimeCode) : Clip :=
  { fadingTitle with id, timelineStart := start, content := .solid ⟨0, 0, 0⟩ }

/-- A track of three colours that meet. -/
def shades : Track := { id := 1, kind := .video, syncLock := false, clips := [shade 1 0, shade 2 10, shade 3 20] }

/-- A document of three colours that meet. -/
def shaded : Document := { titled with tracks := [shades], duration := 30 }

theorem meets_shades : Meets shaded shades (shade 1 0) (shade 2 10) ∧ Meets shaded shades (shade 2 10) (shade 3 20) :=
  ⟨⟨by decide +kernel, by simp [shades], by simp [shades], by decide +kernel⟩,
    ⟨by decide +kernel, by simp [shades], by simp [shades], by decide +kernel⟩⟩

theorem slideClip_between_spans_shades : SlideFits (shade 1 0) (shade 2 10) (shade 3 20) 12 10 30 := by
  have hvalid : shaded.Valid := Document.valid_iff.mpr (by decide +kernel)
  obtain ⟨after, hafter⟩ : ∃ after, (Operation.slideClip 2 12).apply shaded = .ok after := exists_ok (by decide +kernel)
  obtain ⟨_, _, _, _, _, _, _, _, _, hslide⟩ := exists_slide_between hvalid meets_shades.1 meets_shades.2 hafter
  have hstop : shaded.clipEnd (shade 3 20) = .ok 30 := by decide +kernel
  have hduration : shaded.clipDuration (shade 2 10) = .ok 10 := by decide +kernel
  have hout : sourceOut shaded (shade 1 0) 12 (12 - (shade 1 0).timelineStart) = .ok 12 := by decide +kernel
  exact (slideClip_between_spans hvalid meets_shades.1 meets_shades.2 hstop nofun trivial rfl hduration (by decide) hout).mp
    ⟨after, hafter, hslide.placeMoves⟩

/-- The colour on the right has no frames before its origin, so a slide to the left is refused. -/
theorem slideClip_refuses_left : shaded.Valid ∧ Meets shaded shades (shade 1 0) (shade 2 10) ∧
    Meets shaded shades (shade 2 10) (shade 3 20) ∧ shaded.clipEnd (shade 3 20) = .ok 30 ∧
      shaded.clipDuration (shade 2 10) = .ok 10 ∧
      ((shade 1 0).timelineStart < 8 ∧ (8 : TimeCode).toInt + (10 : TimeCode).toInt < (30 : TimeCode).toInt) ∧
      sourceOut shaded (shade 1 0) 8 8 = .ok 8 ∧ ∀ after, (Operation.slideClip 2 8).apply shaded ≠ .ok after := by
  refine ⟨Document.valid_iff.mpr (by decide +kernel), meets_shades.1, meets_shades.2, by decide +kernel, by decide +kernel,
    by decide, by decide +kernel, fun after h => ?_⟩
  have hrefused : ((Operation.slideClip 2 8).apply shaded).toOption.isSome = false := by decide +kernel
  rw [h] at hrefused
  cases hrefused

end Kinewright.Edits
