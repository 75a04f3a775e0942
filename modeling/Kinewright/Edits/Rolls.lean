import Kinewright.Edits.Placements

/-!
# Rolls

`operation.rs`: a roll moves the boundary between two clips that meet. The clip on its left gets another end, and the
clip on its right another start.
-/

namespace Kinewright.Edits

open Fallible Model List Option

variable {doc after next : Document} {found : Track} {clips before window window' rest : List Clip}
  {clip left right left' right' : Clip} {start duration out boundary stop at_ : TimeCode} {source range : FrameRange}

/-! ## Boundaries that were found -/

/-- The search halves the range by the other side of each middle. -/
theorem searchStart_eq {sourceEnd : TimeCode} {rate fps : Rational} (fuel : ℕ) (low high : ℤ) :
    searchStart sourceEnd duration rate fps fuel low high = (Bisect.find (fun n =>
      (sideOf duration (mapSourceRangeToProject (Int64.ofInt n) sourceEnd rate fps)).map Ordering.swap) fuel low high).map
        Int64.ofInt := by
  induction fuel generalizing low high with
  | zero => rfl
  | succ fuel ih =>
    rw [searchStart, Bisect.find]
    by_cases hle : low ≤ high
    · rw [if_pos hle, if_pos hle]
      dsimp only
      cases mapSourceRangeToProject (Int64.ofInt (low + (high - low) / 2)) sourceEnd rate fps with
      | error error => rfl
      | ok mapped =>
        simp only [sideOf, Except.toOption, map_some]
        split_ifs with hgreater hless hless
        · exact (Int64.lt_irrefl (Int64.lt_trans hgreater hless)).elim
        · exact ih _ _
        · exact ih _ _
        · rfl
    · rw [if_neg hle, if_neg hle]
      rfl

/-- A start that was found is between the bounds of the search, and maps to the duration that was searched. -/
theorem searchStart_ok {sourceEnd : TimeCode} {rate fps : Rational} {fuel : ℕ} {low high : ℤ}
    (h : searchStart sourceEnd duration rate fps fuel low high = some start) :
    ∃ n, low ≤ n ∧ n ≤ high ∧ Int64.ofInt n = start ∧
      mapSourceRangeToProject start sourceEnd rate fps = .ok duration := by
  rw [searchStart_eq, map_eq_some_iff] at h
  obtain ⟨n, hfound, rfl⟩ := h
  obtain ⟨hlow, hhigh, hside⟩ := Bisect.find_ok hfound
  obtain ⟨o, hside, hswap⟩ := map_eq_some_iff.mp hside
  obtain rfl : o = .eq := by cases o <;> first | rfl | cases hswap
  exact ⟨n, hlow, hhigh, rfl, sideOf_eq.mp hside⟩

/-- Up to the end that was found the clip lasts as long as it is to. -/
theorem clipDuration_sourceOut (h : sourceOut doc clip at_ duration = .ok out) :
    doc.clipDuration { clip with sourceRange := { clip.sourceRange with stop := out } } = .ok duration := by
  by_cases hmedia : clip.content = .media
  · rw [clipDuration_media (by exact hmedia)]
    simp only [sourceOut, hmedia, bind_eq_ok, okOr_eq_ok, mapError_eq_ok] at h
    obtain ⟨media, hasset, rate, hrate, hfound⟩ := h
    rw [sourceEndForProjectDuration, bind_eq_bind, bind_eq_some_iff] at hfound
    obtain ⟨low, -, hfound⟩ := hfound
    obtain ⟨-, -, -, -, hmapped⟩ := searchBoundary_ok hfound
    exact ⟨media, rate, hasset, hrate, hmapped⟩
  · rw [clipDuration_span (by exact hmedia)]
    have hsum : out.toInt = clip.sourceRange.start.toInt + duration.toInt := by
      rw [sourceOut] at h
      split at h
      · exact absurd ‹_› hmedia
      · exact checkedAdd_eq_some.mp (okOr_eq_ok.mp h)
    dsimp only
    omega

/-- From the start that was found the clip lasts as long as it is to. -/
theorem clipDuration_sourceIn {span : Option FrameRange} (h : sourceIn doc clip at_ duration span = .ok range)
    (hspan : ∀ range ∈ span, duration.toInt = range.stop.toInt - range.start.toInt) :
    doc.clipDuration { clip with sourceRange := range } = .ok duration := by
  by_cases hmedia : clip.content = .media
  · rw [clipDuration_media (by exact hmedia)]
    simp only [sourceIn, hmedia, bind_eq_ok, okOr_eq_ok, mapError_eq_ok, Except.ok.injEq] at h
    obtain ⟨media, hasset, rate, hrate, start, hfound, rfl⟩ := h
    rw [sourceStartForProjectDuration, bind_eq_bind, bind_eq_some_iff] at hfound
    obtain ⟨high, -, hfound⟩ := hfound
    obtain ⟨-, -, -, -, hmapped⟩ := searchStart_ok hfound
    exact ⟨media, rate, hasset, hrate, hmapped⟩
  · rw [clipDuration_span (by exact hmedia)]
    rw [sourceIn] at h
    split at h
    · exact absurd ‹_› hmedia
    · exact hspan range (okOr_eq_ok.mp h)

/-- Up to the end that was found there are frames, and the media has them. -/
theorem sourceOut_within (hrange : 0 ≤ clip.sourceRange.start.toInt) (hpos : 0 < duration.toInt)
    (h : sourceOut doc clip at_ duration = .ok out) :
    Ranges { clip.sourceRange with stop := out } ∧
      (clip.content = .media → ∀ media ∈ doc.asset clip.asset, out ≤ media.duration) := by
  by_cases hmedia : clip.content = .media
  · simp only [sourceOut, hmedia, bind_eq_ok, okOr_eq_ok, mapError_eq_ok] at h
    obtain ⟨media, hasset, rate, -, hfound⟩ := h
    rw [sourceEndForProjectDuration, bind_eq_bind, bind_eq_some_iff] at hfound
    obtain ⟨low, -, hfound⟩ := hfound
    obtain ⟨n, hlow, hhigh, rfl, hmapped⟩ := searchBoundary_ok hfound
    have hle : (Int64.ofInt n).toInt ≤ media.duration.toInt := by
      rw [toInt_ofInt_between hlow hhigh]
      exact hhigh
    refine ⟨(mapSourceRange_eq_ok.mp hmapped).1, fun _ other hother => ?_⟩
    obtain rfl := Option.some.inj (hasset.symm.trans hother)
    exact Int64.le_iff_toInt_le.mpr hle
  · have hsum : out.toInt = clip.sourceRange.start.toInt + duration.toInt := by
      rw [sourceOut] at h
      split at h
      · exact absurd ‹_› hmedia
      · exact checkedAdd_eq_some.mp (okOr_eq_ok.mp h)
    refine ⟨⟨hrange, ?_⟩, fun hcontent => absurd hcontent hmedia⟩
    dsimp only
    omega

/-! ## Clips with another length -/

/-- What a clip needs to last the duration from another origin: time for the fades of a title and for the transition, and
automation that can be moved. -/
structure Affords (clip : Clip) (delta duration : TimeCode) : Prop where
  fades : FadesWithin duration clip.content
  transition : ∀ transition ∈ clip.transitionIn, transition.duration ≤ duration
  effects : ∀ effect ∈ clip.effects, effect.Within delta
  enabled : ∀ curve ∈ clip.enabledCurve, KeysWithin delta curve

section Affords

variable {old delta : TimeCode}

/-- In a place with the frames that it needs, a clip is valid if it affords the length. -/
theorem exists_clipValid_affords (h : ClipValid doc found clip old stop) (hstart : 0 ≤ start.toInt)
    (hpos : 0 < duration.toInt) (hstop : start.toInt + duration.toInt < 2 ^ 63) (hranges : Ranges source)
    (hmedia : clip.content = .media → ∀ media ∈ doc.asset clip.asset, source.stop ≤ media.duration)
    (hduration : doc.clipDuration (clip.placed start source clip.content) = .ok duration) :
    (∃ duration' stop, ClipValid doc found (survivor (clip.placed start source clip.content) delta duration) duration' stop) ↔
      Affords clip delta duration := by
  rw [exists_clipValid_survivor h rfl Iff.rfl hduration]
  have hcontent := validateContent_placed h.content h.duration_eq rfl hduration
  constructor
  · intro hlasts
    obtain ⟨-, -, hfades⟩ := hcontent.mp hlasts.content
    exact ⟨hfades, hlasts.transition, hlasts.effects, hlasts.enabled⟩
  · intro hlength
    exact ⟨hstart, hcontent.mpr ⟨hranges, hmedia, hlength.fades⟩, hpos, hstop, hlength.transition, hlength.effects,
      hlength.enabled⟩

/-- The automation of a valid clip stays where it is. -/
theorem affords_zero (h : ClipValid doc found clip old stop) : Affords clip 0 duration ↔
    FadesWithin duration clip.content ∧ ∀ transition ∈ clip.transitionIn, transition.duration ≤ duration := by
  have hdata := validateClipData_eq_ok.mp h.data
  have henabled := validateEnabled_eq_ok.mp h.enabled
  constructor
  · exact fun hlength => ⟨hlength.fades, hlength.transition⟩
  · rintro ⟨hfades, htransition⟩
    refine ⟨hfades, htransition, fun effect heffect => (hdata.each effect heffect).automation.within_zero, ?_⟩
    intro curve hcurve
    have hcheck := henabled curve hcurve
    rw [validateClipEnabledCurve, then_eq_ok, mapError_eq_ok] at hcheck
    exact keysWithin_zero hcheck.1

end Affords

/-! ## Clips beside each other -/

/-- Clips stay apart if some that follow each other are exchanged for others over the same frames. -/
theorem apart_window (h : Apart doc (before ++ window ++ rest)) (hwindow : Apart doc window')
    (hfirst : ∀ clip' ∈ window', ∃ clip ∈ window, clip.timelineStart ≤ clip'.timelineStart)
    (hlast : ∀ clip' ∈ window', ∀ stop', doc.clipEnd clip' = .ok stop' →
      ∃ clip ∈ window, ∃ stop, doc.clipEnd clip = .ok stop ∧ stop' ≤ stop) :
    Apart doc (before ++ window' ++ rest) := by
  rw [Apart, pairwise_append, pairwise_append] at h ⊢
  obtain ⟨⟨hbefore, -, hbetween⟩, hrest, hafter⟩ := h
  refine ⟨⟨hbefore, hwindow, fun previous hprevious clip' hclip' stop hstop => ?_⟩, hrest, ?_⟩
  · obtain ⟨clip, hclip, hle⟩ := hfirst clip' hclip'
    exact Int64.le_trans (hbetween previous hprevious clip hclip stop hstop) hle
  · intro clip' hclip' last hnext stop' hstop'
    rcases mem_append.mp hclip' with hmem | hmem
    · exact hafter clip' (mem_append_left _ hmem) last hnext stop' hstop'
    · obtain ⟨clip, hclip, stop, hstop, hle⟩ := hlast clip' hmem stop' hstop'
      exact Int64.le_trans hle (hafter clip (mem_append_right _ hclip) last hnext stop hstop)

/-- An edit that exchanges clips that follow each other for valid ones over the same frames is accepted. -/
theorem exists_apply_window {operation : Operation} (edit : Document → Except OpError Document)
    (hedits : ∀ draft : Draft, operation.edit draft = draft.keep edit) (hvalid : doc.Valid)
    (htrack : trackOf doc found.id = .ok found) (hclips : found.clips = before ++ window ++ rest)
    (hedit : edit doc = .ok (withClips doc found.id (before ++ window' ++ rest)))
    (hwindow : ∀ clip ∈ window', ∃ duration stop, ClipValid doc found clip duration stop) (hapart : Apart doc window')
    (hfirst : ∀ clip' ∈ window', ∃ clip ∈ window, clip.timelineStart ≤ clip'.timelineStart)
    (hlast : ∀ clip' ∈ window', ∀ stop', doc.clipEnd clip' = .ok stop' →
      ∃ clip ∈ window, ∃ stop, doc.clipEnd clip = .ok stop ∧ stop' ≤ stop)
    (hids : window'.map Clip.id = window.map Clip.id) : ∃ after, operation.apply doc = .ok after := by
  have hmem := mem_of_trackOf htrack
  have heach : ∀ clip ∈ before ++ window' ++ rest, ∃ duration stop, ClipValid doc found clip duration stop := by
    intro clip hclip
    rw [mem_append, mem_append] at hclip
    rcases hclip with (hclip | hclip) | hclip
    · exact hvalid.clipValid hmem (by simp [hclips, hclip])
    · exact hwindow clip hclip
    · exact hvalid.clipValid hmem (by simp [hclips, hclip])
  have hbefore := hvalid.fits.apart found hmem
  rw [hclips] at hbefore
  obtain ⟨after, happly, -⟩ := exists_apply_withClips edit hedits hvalid htrack hedit heach
    (apart_window hbefore hapart hfirst hlast) (by rw [hclips]; simp [hids])
  exact ⟨after, happly⟩

theorem drop_eq_cons {index : ℕ} (h : clips[index]? = some clip) : clips.drop index = clip :: clips.drop (index + 1) := by
  obtain ⟨hlt, rfl⟩ := List.getElem?_eq_some_iff.mp h
  exact drop_eq_getElem_cons hlt

/-- Clips that follow each other on a track, and what is around them. -/
theorem exists_window {index : ℕ} (hleft : clips[index]? = some left) (hright : clips[index + 1]? = some right) :
    ∃ before rest, clips = before ++ [left, right] ++ rest ∧ before.length = index := by
  obtain ⟨hlt, -⟩ := List.getElem?_eq_some_iff.mp hleft
  refine ⟨clips.take index, clips.drop (index + 1 + 1), ?_, length_take_of_le hlt.le⟩
  rw [append_assoc, cons_append, singleton_append, ← drop_eq_cons hright, ← drop_eq_cons hleft, take_append_drop]

theorem set_window (before rest : List Clip) (left right left' right' : Clip) :
    ((before ++ [left, right] ++ rest).set before.length left').set (before.length + 1) right'
      = before ++ [left', right'] ++ rest := by
  rw [append_assoc, set_append_right _ _ (Nat.le_refl _), set_append_right _ _ (Nat.le_succ _)]
  simp

/-- Two clips of a track that meet. -/
structure Meets (doc : Document) (found : Track) (left right : Clip) : Prop where
  track : trackOf doc found.id = .ok found
  leftMem : left ∈ found.clips
  rightMem : right ∈ found.clips
  meets : doc.clipEnd left = .ok right.timelineStart

/-- Where a valid clip ends. -/
theorem exists_clipEnd (hvalid : doc.Valid) (htrack : trackOf doc found.id = .ok found) (hclip : clip ∈ found.clips) :
    ∃ stop, doc.clipEnd clip = .ok stop ∧ clip.timelineStart < stop := by
  obtain ⟨duration, stop, h⟩ := hvalid.clipValid (mem_of_trackOf htrack) hclip
  have hstop := h.stop_eq
  have hpos := h.pos
  exact ⟨stop, h.clipEnd, Int64.lt_iff_toInt_lt.mpr (by omega)⟩

/-- Clips that meet follow each other on their track. -/
theorem Meets.between (h : Meets doc found left right) (hvalid : doc.Valid) :
    ∃ before rest, found.clips = before ++ [left, right] ++ rest := by
  obtain ⟨leftEnd, hleftEnd, hlt⟩ := exists_clipEnd hvalid h.track h.leftMem
  obtain rfl := Except.ok.inj (h.meets.symm.trans hleftEnd)
  obtain ⟨rightEnd, hrightEnd, hlt'⟩ := exists_clipEnd hvalid h.track h.rightMem
  have hapart := hvalid.fits.apart found (mem_of_trackOf h.track)
  obtain ⟨before, after, hclips⟩ := append_of_mem h.leftMem
  have hright := h.rightMem
  rw [hclips] at hapart hright
  rw [Apart, pairwise_append, pairwise_cons] at hapart
  obtain ⟨-, ⟨hnext, hafter⟩, hbefore⟩ := hapart
  rw [Int64.lt_iff_toInt_lt] at hlt hlt'
  rcases mem_append.mp hright with hmem | hmem
  · have hle := hbefore right hmem left mem_cons_self rightEnd hrightEnd
    rw [Int64.le_iff_toInt_le] at hle
    omega
  · rcases mem_cons.mp hmem with rfl | hmem
    · omega
    · obtain ⟨between, rest, rfl⟩ := append_of_mem hmem
      cases between with
      | nil => exact ⟨before, rest, by simp [hclips]⟩
      | cons clip between =>
        have hclip : clip ∈ found.clips := by simp [hclips]
        obtain ⟨stop, hstop, hlt''⟩ := exists_clipEnd hvalid h.track hclip
        have hle := hnext clip (by simp) _ h.meets
        have hle' := (pairwise_cons.mp hafter).1 right (by simp) stop hstop
        rw [Int64.le_iff_toInt_le] at hle hle'
        rw [Int64.lt_iff_toInt_lt] at hlt''
        omega

/-! ## Rolled clips -/

/-- A span that is rolled keeps its origin and gets the length. -/
theorem rolledSpan_eq_some : rolledSpan source duration = some range ↔
    range.start = source.start ∧ range.stop.toInt = source.start.toInt + duration.toInt ∧ 0 < duration.toInt := by
  rw [rolledSpan, bind_eq_bind, bind_eq_some_iff]
  constructor
  · rintro ⟨last, hlast, h⟩
    rw [checkedAdd_eq_some] at hlast
    split at h
    · rename_i hlt
      obtain rfl := Option.some.inj h
      rw [Int64.lt_iff_toInt_lt] at hlt
      exact ⟨rfl, hlast, by omega⟩
    · cases h
  · rintro ⟨hstart, hstop, hpos⟩
    refine ⟨range.stop, checkedAdd_eq_some.mpr hstop, ?_⟩
    rw [if_pos (Int64.lt_iff_toInt_lt.mpr (by omega)), ← hstart]

/-- What `roll_edit` computes. -/
structure RollOf (doc : Document) (left right : Clip) (at_ stop out leftDuration rightDuration : TimeCode)
    (range : FrameRange) : Prop where
  inside : left.timelineStart < at_ ∧ at_ < stop
  leftDuration_eq : leftDuration.toInt = at_.toInt - left.timelineStart.toInt
  rightDuration_eq : rightDuration.toInt = stop.toInt - at_.toInt
  out_eq : sourceOut doc left at_ leftDuration = .ok out
  range_eq : sourceIn doc right at_ rightDuration (rolledSpan right.sourceRange rightDuration) = .ok range

/-- The clip that gets another end. -/
def resized (left : Clip) (out duration : TimeCode) : Clip :=
  survivor (left.placed left.timelineStart { left.sourceRange with stop := out } left.content) 0 duration

/-- The clip that gets another start. -/
def restarted (right : Clip) (at_ : TimeCode) (range : FrameRange) (duration delta : TimeCode) : Clip :=
  survivor (right.placed at_ range right.content) delta duration

@[simp] theorem resized_id (left : Clip) (out duration : TimeCode) : (resized left out duration).id = left.id := rfl

@[simp] theorem restarted_id (right : Clip) (at_ : TimeCode) (range : FrameRange) (duration delta : TimeCode) :
    (restarted right at_ range duration delta).id = right.id := rfl

theorem rollEdit_ok {leftId rightId : ClipId} (hdistinct : Distinct doc)
    (h : rollEdit doc leftId rightId at_ = .ok next) :
    ∃ found before left right rest stop out leftDuration rightDuration range, left.id = leftId ∧ right.id = rightId ∧
      Meets doc found left right ∧ found.clips = before ++ [left, right] ++ rest ∧ doc.clipEnd right = .ok stop ∧
      RollOf doc left right at_ stop out leftDuration rightDuration range ∧
      next = withClips doc found.id (before ++ [resized left out leftDuration,
        restarted right at_ range rightDuration (at_ - right.timelineStart)] ++ rest) := by
  rw [rollEdit] at h
  simp only [bind_eq_ok, okOr_eq_ok, checkedSub_eq_some, refuse_eq_ok, Except.ok.injEq, not_or, not_not, Int64.not_le] at h
  obtain ⟨left, hleft, right, hright, ⟨⟩, ⟨htrackIndex, hclipIndex⟩, leftEnd, hleftEnd, rightEnd, hrightEnd, ⟨⟩,
    ⟨rfl, hafter, hbefore⟩, leftDuration, hleftDuration, out, hout, rightDuration, hrightDuration, range, hrange, leftClip,
    hleftClip, rightClip, hrightClip, rfl⟩ := h
  obtain ⟨hmem, hclip, rfl⟩ := mem_of_placeOf hleft
  obtain ⟨hleftTrack, -, -⟩ := placeOf_ok hleft
  obtain ⟨hrightTrack, hrightAt, hrightId⟩ := placeOf_ok hright
  have htrack := hdistinct.trackOf hmem
  obtain ⟨-, -, hleftAt, hset⟩ := hdistinct.placeOf htrack hclip hleft
  rw [← htrackIndex, hleftTrack] at hrightTrack
  rw [← Option.some.inj hrightTrack, hclipIndex] at hrightAt
  obtain ⟨before, rest, hclips, hindex⟩ := exists_window hleftAt hrightAt
  -- both clips last as long as the boundary was searched for
  obtain ⟨_, hduration, rfl⟩ := surviveClipEdit_ok hleftClip
  obtain rfl := Except.ok.inj ((clipDuration_sourceOut hout).symm.trans hduration)
  obtain ⟨_, hduration', rfl⟩ := surviveClipEdit_ok hrightClip
  have hlength : ∀ span ∈ rolledSpan right.clip.sourceRange rightDuration,
      rightDuration.toInt = span.stop.toInt - span.start.toInt := by
    intro span hspan
    obtain ⟨hstart, hstop, -⟩ := rolledSpan_eq_some.mp hspan
    rw [hstart]
    omega
  obtain rfl := Except.ok.inj ((clipDuration_sourceIn hrange hlength).symm.trans hduration')
  refine ⟨left.track, before, left.clip, right.clip, rest, rightEnd, out, leftDuration, rightDuration, range, rfl, hrightId,
    ⟨htrack, hclip, mem_of_getElem? hrightAt, hleftEnd⟩, hclips, hrightEnd,
    ⟨⟨hafter, hbefore⟩, hleftDuration, hrightDuration, hout, hrange⟩, ?_⟩
  rw [hset, hclipIndex, hclips, ← hindex, set_window]
  rfl

/-! ## Accepted rolls -/

theorem filter_window {ids : List ClipId} (hwindow : ∀ clip ∈ window, clip.id ∈ ids)
    (hwindow' : ∀ clip ∈ window', clip.id ∈ ids) :
    (before ++ window' ++ rest).filter (fun clip => clip.id ∉ ids)
      = (before ++ window ++ rest).filter fun clip => clip.id ∉ ids := by
  have hnone (clips : List Clip) (hclips : ∀ clip ∈ clips, clip.id ∈ ids) :
      (clips.filter fun clip => clip.id ∉ ids) = [] :=
    filter_eq_nil_iff.mpr fun clip hclip => by simp [hclips clip hclip]
  rw [filter_append, filter_append, filter_append, filter_append, hnone window hwindow, hnone window' hwindow']

/-- Only the boundary between the two clips is in another place. -/
def BoundaryMoves (doc after : Document) (leftId rightId : ClipId) (at_ : TimeCode) : Prop :=
  ∃ left right left' right' stop, doc.clip leftId = some left ∧ doc.clip rightId = some right ∧
    after.clip leftId = some left' ∧ after.clip rightId = some right' ∧
    left'.timelineStart = left.timelineStart ∧ after.clipEnd left' = .ok at_ ∧
    right'.timelineStart = at_ ∧ doc.clipEnd right = .ok stop ∧ after.clipEnd right' = .ok stop ∧
    otherClips [leftId, rightId] after = otherClips [leftId, rightId] doc

section Lengths

variable {old delta : TimeCode}

/-- A clip that gets another end is valid, if it affords its length. -/
theorem exists_clipValid_resized (h : ClipValid doc found left old stop)
    (hout : sourceOut doc left at_ duration = .ok out) (hpos : 0 < duration.toInt)
    (hduration : duration.toInt = at_.toInt - left.timelineStart.toInt) :
    (∃ duration' stop, ClipValid doc found (resized left out duration) duration' stop) ↔
      FadesWithin duration left.content ∧ ∀ transition ∈ left.transitionIn, transition.duration ≤ duration := by
  have hstart := h.start
  have hmax := at_.toInt_lt
  obtain ⟨hrange, -⟩ := ranges_of_validateContent h.content
  obtain ⟨hranges, hmedia⟩ := sourceOut_within hrange hpos hout
  rw [← affords_zero h]
  exact exists_clipValid_affords h hstart hpos (by omega) hranges hmedia (clipDuration_sourceOut hout)

/-- A span that gets another start is valid, if it affords its length. -/
theorem exists_clipValid_restarted (h : ClipValid doc found right old stop) (hspan : right.content ≠ .media)
    (hlasts : doc.clipDuration { right with sourceRange := range } = .ok duration) (hranges : Ranges range)
    (hstart : 0 ≤ at_.toInt) (hpos : 0 < duration.toInt) (hduration : duration.toInt = stop.toInt - at_.toInt) :
    (∃ duration' stop, ClipValid doc found (restarted right at_ range duration delta) duration' stop) ↔
      Affords right delta duration := by
  have hmax := stop.toInt_lt
  have hplaced : doc.clipDuration (right.placed at_ range right.content) = .ok duration := by
    exact hlasts
  exact exists_clipValid_affords h hstart hpos (by omega) hranges (fun hcontent => absurd hcontent hspan) hplaced

end Lengths

/-- A roll that was accepted. -/
structure Roll (doc after : Document) (found : Track) (before : List Clip) (left right : Clip) (rest : List Clip)
    (at_ stop out leftDuration rightDuration : TimeCode) (range : FrameRange) : Prop where
  valid : doc.Valid
  validAfter : after.Valid
  meets : Meets doc found left right
  clips : found.clips = before ++ [left, right] ++ rest
  stop_eq : doc.clipEnd right = .ok stop
  rolls : RollOf doc left right at_ stop out leftDuration rightDuration range
  left : Left doc after found (before ++ [resized left out leftDuration,
    restarted right at_ range rightDuration (at_ - right.timelineStart)] ++ rest)

theorem exists_roll {leftId rightId : ClipId} (h : (Operation.rollEdit leftId rightId at_).apply doc = .ok after) :
    ∃ found before left right rest stop out leftDuration rightDuration range, left.id = leftId ∧ right.id = rightId ∧
      Roll doc after found before left right rest at_ stop out leftDuration rightDuration range := by
  obtain ⟨edited, happlied⟩ := applied_of_apply h
  have hkeep : ({ doc, events := [] } : Draft).keep (rollEdit · leftId rightId at_) = .ok edited := happlied.edits
  have hroll : rollEdit doc leftId rightId at_ = .ok edited.doc := keep_eq hkeep
  obtain ⟨found, before, left, right, rest, stop, out, leftDuration, rightDuration, range, hleft, hright, hmeets, hclips,
    hstop, hrolls, hedited⟩ := rollEdit_ok happlied.distinct hroll
  exact ⟨found, before, left, right, rest, stop, out, leftDuration, rightDuration, range, hleft, hright, happlied.before,
    happlied.after, hmeets, hclips, hstop, hrolls, happlied.left hmeets.track hedited⟩

/-- A clip ends when its duration is over. -/
theorem clipEnd_of_duration (hduration : doc.clipDuration clip = .ok duration)
    (hstop : stop.toInt = clip.timelineStart.toInt + duration.toInt) : doc.clipEnd clip = .ok stop := by
  rw [Document.clipEnd, hduration, ok_bind, okOr_eq_ok, checkedAdd_eq_some]
  exact hstop

theorem clipEnd_resized (hout : sourceOut doc left at_ duration = .ok out)
    (hduration : duration.toInt = at_.toInt - left.timelineStart.toInt) :
    doc.clipEnd (resized left out duration) = .ok at_ := by
  have hresized : doc.clipDuration (resized left out duration) = .ok duration := by
    rw [resized, clipDuration_survivor]
    exact clipDuration_sourceOut hout
  refine clipEnd_of_duration hresized ?_
  change at_.toInt = left.timelineStart.toInt + duration.toInt
  omega

theorem clipEnd_restarted {delta : TimeCode} (hlasts : doc.clipDuration { right with sourceRange := range } = .ok duration)
    (hduration : duration.toInt = stop.toInt - at_.toInt) :
    doc.clipEnd (restarted right at_ range duration delta) = .ok stop := by
  have hrestarted : doc.clipDuration (restarted right at_ range duration delta) = .ok duration := by
    exact hlasts
  refine clipEnd_of_duration hrestarted ?_
  change stop.toInt = at_.toInt + duration.toInt
  omega

variable {leftDuration rightDuration : TimeCode}

theorem RollOf.lasts (h : RollOf doc left right at_ stop out leftDuration rightDuration range) :
    doc.clipDuration { right with sourceRange := range } = .ok rightDuration := by
  refine clipDuration_sourceIn h.range_eq fun span hspan => ?_
  obtain ⟨hstart, hstop, -⟩ := rolledSpan_eq_some.mp hspan
  rw [hstart]
  omega

theorem Roll.boundaryMoves
    (h : Roll doc after found before left right rest at_ stop out leftDuration rightDuration range) :
    BoundaryMoves doc after left.id right.id at_ := by
  have htrack := h.meets.track
  have hmem := mem_of_trackOf htrack
  have hleft : after.clip (resized left out leftDuration).id = some (resized left out leftDuration) :=
    h.left.clip_eq htrack h.validAfter (by simp)
  have hright : after.clip (restarted right at_ range rightDuration (at_ - right.timelineStart)).id
      = some (restarted right at_ range rightDuration (at_ - right.timelineStart)) :=
    h.left.clip_eq htrack h.validAfter (by simp)
  refine ⟨left, right, resized left out leftDuration,
    restarted right at_ range rightDuration (at_ - right.timelineStart), stop, ?_, ?_, hleft, hright, rfl, ?_, rfl,
    h.stop_eq, ?_, ?_⟩
  · exact h.valid.fits.clip_eq_some (mem_clips hmem h.meets.leftMem)
  · exact h.valid.fits.clip_eq_some (mem_clips hmem h.meets.rightMem)
  · rw [h.left.footage.clipEnd]
    exact clipEnd_resized h.rolls.out_eq h.rolls.leftDuration_eq
  · rw [h.left.footage.clipEnd]
    exact clipEnd_restarted h.rolls.lasts h.rolls.rightDuration_eq
  · refine h.left.others htrack ?_
    rw [h.clips]
    exact filter_window (by simp) (by simp)

/-! ## Rolls of spans -/

theorem index_eq {index index' : ℕ} (hnodup : (clips.map Clip.id).Nodup) (h : clips[index]? = some clip)
    (h' : clips[index']? = some clip) : index = index' := by
  obtain ⟨hlt, -⟩ := List.getElem?_eq_some_iff.mp h
  exact (getElem?_inj hlt hnodup.of_map).mp (h.trans h'.symm)

/-- A roll that can be computed is made. -/
theorem rollEdit_of (hdistinct : Distinct doc) (hmeets : Meets doc found left right)
    (hclips : found.clips = before ++ [left, right] ++ rest) (hstop : doc.clipEnd right = .ok stop)
    (h : RollOf doc left right at_ stop out leftDuration rightDuration range) :
    rollEdit doc left.id right.id at_ = .ok (withClips doc found.id (before ++ [resized left out leftDuration,
      restarted right at_ range rightDuration (at_ - right.timelineStart)] ++ rest)) := by
  have htrack := hmeets.track
  have hnodup := hdistinct.clips_nodup htrack
  obtain ⟨leftPlace, hleft⟩ := exists_placeOf (mem_of_trackOf htrack) hmeets.leftMem
  obtain ⟨rightPlace, hright⟩ := exists_placeOf (mem_of_trackOf htrack) hmeets.rightMem
  obtain ⟨hleftFound, hleftClip, hleftAt, hset⟩ := hdistinct.placeOf htrack hmeets.leftMem hleft
  obtain ⟨hrightFound, hrightClip, hrightAt, -⟩ := hdistinct.placeOf htrack hmeets.rightMem hright
  obtain ⟨hleftTrack, -, -⟩ := placeOf_ok hleft
  obtain ⟨hrightTrack, -, -⟩ := placeOf_ok hright
  have htrackIndex : leftPlace.trackIndex = rightPlace.trackIndex := by
    obtain ⟨hlt, -⟩ := List.getElem?_eq_some_iff.mp hleftTrack
    refine (getElem?_inj hlt hdistinct.trackIds.of_map).mp ?_
    rw [hleftTrack, hrightTrack, hleftFound, hrightFound]
  have hleftIndex : leftPlace.clipIndex = before.length := index_eq hnodup hleftAt (by rw [hclips]; simp)
  have hrightIndex : rightPlace.clipIndex = before.length + 1 := index_eq hnodup hrightAt (by rw [hclips]; simp)
  obtain ⟨hafter, hbefore⟩ := h.inside
  rw [rollEdit]
  simp only [bind_eq_ok, okOr_eq_ok, checkedSub_eq_some, refuse_eq_ok, Except.ok.injEq, not_or, not_not, Int64.not_le]
  refine ⟨leftPlace, hleft, rightPlace, hright, (), ⟨htrackIndex, by omega⟩, right.timelineStart, ?_, stop, ?_, (), ?_,
    leftDuration, ?_, out, ?_, rightDuration, h.rightDuration_eq, range, ?_, resized left out leftDuration, ?_,
    restarted right at_ range rightDuration (at_ - right.timelineStart), ?_, ?_⟩
  · rw [hleftClip]
    exact hmeets.meets
  · rw [hrightClip]
    exact hstop
  · rw [hleftClip, hrightClip]
    exact ⟨rfl, hafter, hbefore⟩
  · rw [hleftClip]
    exact h.leftDuration_eq
  · rw [hleftClip]
    exact h.out_eq
  · rw [hrightClip]
    exact h.range_eq
  · rw [hleftClip]
    exact surviveClipEdit_eq (clipDuration_sourceOut h.out_eq)
  · rw [hrightClip]
    exact surviveClipEdit_eq h.lasts
  · rw [hset, hleftFound, hclips, hleftIndex, hrightIndex, set_window]

/-- What two spans need for the boundary between them to be in another place: the ends of their ranges are frames, and
both clips afford their new lengths. -/
structure RollFits (left right : Clip) (at_ stop : TimeCode) : Prop where
  leftStop : left.sourceRange.start.toInt + (at_.toInt - left.timelineStart.toInt) < 2 ^ 63
  rightStop : right.sourceRange.start.toInt + (stop.toInt - at_.toInt) < 2 ^ 63
  left : FadesWithin (at_ - left.timelineStart) left.content ∧
    ∀ transition ∈ left.transitionIn, transition.duration ≤ at_ - left.timelineStart
  right : Affords right (at_ - right.timelineStart) (stop - at_)

theorem sourceOut_span (hspan : clip.content ≠ .media) : sourceOut doc clip at_ duration = .ok out ↔
    out.toInt = clip.sourceRange.start.toInt + duration.toInt := by
  rw [sourceOut]
  split
  · exact absurd ‹_› hspan
  · rw [okOr_eq_ok, checkedAdd_eq_some]

theorem sourceIn_span {span : Option FrameRange} (hspan : clip.content ≠ .media) :
    sourceIn doc clip at_ duration span = .ok range ↔ span = some range := by
  rw [sourceIn]
  split
  · exact absurd ‹_› hspan
  · rw [okOr_eq_ok]

section Spans

variable (hvalid : doc.Valid) (hmeets : Meets doc found left right) (hstop : doc.clipEnd right = .ok stop)
  (hleft : left.content ≠ .media) (hright : right.content ≠ .media) (hinside : left.timelineStart < at_ ∧ at_ < stop)

include hvalid hmeets hinside

/-- The lengths of the two clips, if their boundary is in another place. -/
theorem toInt_lengths : 0 ≤ left.timelineStart.toInt ∧ 0 ≤ at_.toInt ∧
    (at_ - left.timelineStart).toInt = at_.toInt - left.timelineStart.toInt ∧
    (stop - at_).toInt = stop.toInt - at_.toInt ∧ 0 < (at_ - left.timelineStart).toInt ∧ 0 < (stop - at_).toInt := by
  obtain ⟨_, _, hfits⟩ := hvalid.clipValid (mem_of_trackOf hmeets.track) hmeets.leftMem
  have hstart := hfits.start
  obtain ⟨hafter, hbefore⟩ := hinside
  rw [Int64.lt_iff_toInt_lt] at hafter hbefore
  have hlength := toInt_sub_of_nonneg (a := at_) (by omega) hstart
  have hlength' := toInt_sub_of_nonneg (a := stop) (b := at_) (by omega) (by omega)
  exact ⟨hstart, by omega, hlength, hlength', by omega, by omega⟩

include hstop hleft hright

theorem rollFits_of_apply (h : (Operation.rollEdit left.id right.id at_).apply doc = .ok after) :
    RollFits left right at_ stop := by
  obtain ⟨hstart, hnonneg, hlength, hlength', hpos, hpos'⟩ := toInt_lengths hvalid hmeets hinside
  obtain ⟨found', before, left', right', rest, stop', out, leftDuration, rightDuration, range, hleftId, hrightId, hroll⟩ :=
    exists_roll h
  -- the clips of the ids are the two
  have hmem := mem_of_trackOf hmeets.track
  have hmem' := mem_of_trackOf hroll.meets.track
  obtain rfl := hvalid.fits.eq_of_id (mem_clips hmem' hroll.meets.leftMem) (mem_clips hmem hmeets.leftMem) hleftId
  obtain rfl := hvalid.fits.eq_of_id (mem_clips hmem' hroll.meets.rightMem) (mem_clips hmem hmeets.rightMem) hrightId
  obtain rfl := Except.ok.inj (hroll.stop_eq.symm.trans hstop)
  have hrolls := hroll.rolls
  obtain rfl : leftDuration = at_ - left'.timelineStart := by
    rw [← Int64.toInt_inj, hrolls.leftDuration_eq, hlength]
  obtain rfl : rightDuration = stop' - at_ := by
    rw [← Int64.toInt_inj, hrolls.rightDuration_eq, hlength']
  have hout := (sourceOut_span hleft).mp hrolls.out_eq
  obtain ⟨hsame, hlast, -⟩ := rolledSpan_eq_some.mp ((sourceIn_span hright).mp hrolls.range_eq)
  have houtMax := out.toInt_lt
  have hlastMax := range.stop.toInt_lt
  obtain ⟨_, _, hleftFits⟩ := hvalid.clipValid hmem' hroll.meets.leftMem
  obtain ⟨_, _, hrightFits⟩ := hvalid.clipValid hmem' hroll.meets.rightMem
  obtain ⟨hrange, -⟩ := ranges_of_validateContent hrightFits.content
  obtain rfl := Except.ok.inj (hrightFits.clipEnd.symm.trans hstop)
  refine ⟨by omega, by omega, ?_, ?_⟩
  · refine (exists_clipValid_resized hleftFits hrolls.out_eq hpos hlength).mp ?_
    exact hroll.left.valid _ (by simp)
  · refine (exists_clipValid_restarted hrightFits hright hrolls.lasts ⟨hsame ▸ hrange, ?_⟩ hnonneg hpos' hlength').mp ?_
    · rw [hsame]
      omega
    · exact hroll.left.valid _ (by simp)

/-- A roll between spans that fit is accepted. -/
theorem exists_apply_rollEdit (h : RollFits left right at_ stop) :
    ∃ after, (Operation.rollEdit left.id right.id at_).apply doc = .ok after := by
  obtain ⟨hstart, hnonneg, hlength, hlength', hpos, hpos'⟩ := toInt_lengths hvalid hmeets hinside
  have htrack := hmeets.track
  have hmem := mem_of_trackOf htrack
  have hleftStop := h.leftStop
  have hrightStop := h.rightStop
  obtain ⟨_, _, hleftFits⟩ := hvalid.clipValid hmem hmeets.leftMem
  obtain ⟨_, _, hrightFits⟩ := hvalid.clipValid hmem hmeets.rightMem
  obtain rfl := Except.ok.inj (hstop.symm.trans hrightFits.clipEnd)
  obtain ⟨hrange, -⟩ := ranges_of_validateContent hleftFits.content
  obtain ⟨hrange', -⟩ := ranges_of_validateContent hrightFits.content
  -- the ends of both ranges
  obtain ⟨out, -, hout⟩ := exists_tryFrom_of_lt
    (n := left.sourceRange.start.toInt + (at_ - left.timelineStart).toInt) (by omega) (by omega)
  obtain ⟨last, -, hlast⟩ := exists_tryFrom_of_lt (n := right.sourceRange.start.toInt + (stop - at_).toInt) (by omega) (by omega)
  have hrolls : RollOf doc left right at_ stop out (at_ - left.timelineStart) (stop - at_)
      ⟨right.sourceRange.start, last⟩ :=
    ⟨hinside, hlength, hlength', (sourceOut_span hleft).mpr hout,
      (sourceIn_span hright).mpr (rolledSpan_eq_some.mpr ⟨rfl, hlast, hpos'⟩)⟩
  have hranges : Ranges ⟨right.sourceRange.start, last⟩ := by
    refine ⟨hrange', ?_⟩
    dsimp only
    omega
  obtain ⟨before, rest, hclips⟩ := hmeets.between hvalid
  have hresized := (exists_clipValid_resized hleftFits hrolls.out_eq hpos hlength).mpr h.left
  have hrestarted := (exists_clipValid_restarted hrightFits hright hrolls.lasts hranges hnonneg hpos' hlength').mpr h.right
  have hedit := rollEdit_of (distinct_of_fits hvalid.fits) hmeets hclips hstop hrolls
  obtain ⟨hafter, hbefore⟩ := hinside
  have hleftEnd := clipEnd_resized hrolls.out_eq hlength
  have hedits (draft : Draft) : (Operation.rollEdit left.id right.id at_).edit draft
      = draft.keep (rollEdit · left.id right.id at_) := rfl
  refine exists_apply_window _ hedits hvalid htrack hclips hedit ?_ ?_ ?_ ?_ (by simp)
  · intro clip hclip
    rcases mem_pair.mp hclip with rfl | rfl
    · exact hresized
    · exact hrestarted
  · refine pairwise_pair.mpr fun stop' hstop' => ?_
    obtain rfl := Except.ok.inj (hleftEnd.symm.trans hstop')
    exact Int64.le_refl _
  · intro clip hclip
    rcases mem_pair.mp hclip with rfl | rfl
    · exact ⟨left, by simp, Int64.le_refl _⟩
    · exact ⟨left, by simp, Int64.le_of_lt hafter⟩
  · intro clip hclip stop' hstop'
    refine ⟨right, by simp, stop, hstop, ?_⟩
    rcases mem_pair.mp hclip with rfl | rfl
    · obtain rfl := Except.ok.inj (hleftEnd.symm.trans hstop')
      exact Int64.le_of_lt hbefore
    · obtain rfl := Except.ok.inj ((clipEnd_restarted hrolls.lasts hlength').symm.trans hstop')
      exact Int64.le_refl _

end Spans

/-- An accepted roll moves only the boundary between the two clips, and one between spans is accepted exactly if the
spans fit. -/
theorem rollEdit_moves_boundary (hvalid : doc.Valid) :
    (∀ leftId rightId at_ after, (Operation.rollEdit leftId rightId at_).apply doc = .ok after →
      BoundaryMoves doc after leftId rightId at_) ∧
    ∀ found left right stop at_, Meets doc found left right → doc.clipEnd right = .ok stop →
      left.content ≠ .media → right.content ≠ .media → left.timelineStart < at_ ∧ at_ < stop →
        ((∃ after, (Operation.rollEdit left.id right.id at_).apply doc = .ok after) ↔ RollFits left right at_ stop) := by
  refine ⟨fun leftId rightId at_ after h => ?_, fun found left right stop at_ hmeets hstop hleft hright hinside => ⟨?_, ?_⟩⟩
  · obtain ⟨found, before, left, right, rest, stop, out, leftDuration, rightDuration, range, rfl, rfl, hroll⟩ :=
      exists_roll h
    exact hroll.boundaryMoves
  · rintro ⟨after, hafter⟩
    exact rollFits_of_apply hvalid hmeets hstop hleft hright hinside hafter
  · exact exists_apply_rollEdit hvalid hmeets hstop hleft hright hinside

/-- The title that fades out, after itself. -/
def nextTitle : Clip := { fadingTitle with id := 2, timelineStart := 10 }

/-- A track of two titles that meet. -/
def titles : Track := { id := 1, kind := .video, syncLock := false, clips := [fadingTitle, nextTitle] }

/-- A document of two titles that meet. -/
def titledTwice : Document := { titled with tracks := [titles], duration := 20 }

theorem meets_titles : Meets titledTwice titles fadingTitle nextTitle :=
  ⟨by decide +kernel, mem_cons_self, mem_cons_of_mem _ mem_cons_self, by decide +kernel⟩

theorem rollEdit_moves_boundary_titles : ∃ after, (Operation.rollEdit 1 2 12).apply titledTwice = .ok after ∧
    BoundaryMoves titledTwice after 1 2 12 ∧ RollFits fadingTitle nextTitle 12 20 := by
  have hvalid : titledTwice.Valid := Document.valid_iff.mpr (by decide +kernel)
  obtain ⟨after, hafter⟩ : ∃ after, (Operation.rollEdit 1 2 12).apply titledTwice = .ok after :=
    exists_ok (by decide +kernel)
  obtain ⟨hmoves, hspans⟩ := rollEdit_moves_boundary hvalid
  exact ⟨after, hafter, hmoves 1 2 12 after hafter, (hspans titles fadingTitle nextTitle 20 12 meets_titles
    (by decide +kernel) nofun nofun (by decide)).mp ⟨after, hafter⟩⟩

/-- Two frames are not enough for the fade of the first title, so the roll is refused. -/
theorem rollEdit_refuses_fade : titledTwice.Valid ∧ Meets titledTwice titles fadingTitle nextTitle ∧
    titledTwice.clipEnd nextTitle = .ok 20 ∧ (fadingTitle.timelineStart < 2 ∧ (2 : TimeCode) < 20) ∧
      ∀ after, (Operation.rollEdit 1 2 2).apply titledTwice ≠ .ok after := by
  refine ⟨Document.valid_iff.mpr (by decide +kernel), meets_titles, by decide +kernel, by decide, fun after h => ?_⟩
  have hrefused : ((Operation.rollEdit 1 2 2).apply titledTwice).toOption.isSome = false := by decide +kernel
  rw [h] at hrefused
  cases hrefused

end Kinewright.Edits
