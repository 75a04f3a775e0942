import Kinewright.Edits.Placements

/-!
# Trims

`operation.rs`: a trim gives a clip another source range. Each edge of the clip follows its edge of the range on the
frames of the project, and the automation of the clip stays where it is.
-/

namespace Kinewright.Edits

open Fallible Model Int64 List
open Except hiding map_id

variable {doc after again next : Document} {found : Track} {id : ClipId} {clip clip' : Clip} {rate : Rational}
  {newSource : FrameRange} {start length length' duration delta back first last first' last' : TimeCode}

/-! ## Edges -/

/-- An edge of a clip follows its edge of the source range: it stays with it, or moves by what the frames between are
mapped to. -/
structure EdgeMoves (rate fps : Rational) (source source' edge edge' : TimeCode) : Prop where
  stays : source' = source → edge' = edge
  later : source < source' → ∃ moved, mapSourceRangeToProject source source' rate fps = .ok moved ∧
    edge'.toInt = edge.toInt + moved.toInt
  earlier : source' < source → ∃ moved, mapSourceRangeToProject source' source rate fps = .ok moved ∧
    edge'.toInt = edge.toInt - moved.toInt

/-- A range between two mapped frames is mapped. -/
theorem exists_mapSourceRange {fps : Rational} {source source' : TimeCode}
    (hfirst : mapFrames source rate fps = .ok first) (hlast : mapFrames source' rate fps = .ok last)
    (hlt : source < source') :
    ∃ moved, mapSourceRangeToProject source source' rate fps = .ok moved ∧ moved.toInt = last.toInt - first.toInt := by
  rw [lt_iff_toInt_lt] at hlt
  obtain ⟨-, -, hnonneg, -⟩ := mapFrames_ok hfirst
  obtain ⟨hpos, hle⟩ := mapFrames_mono hfirst hlast (by omega)
  have hmax := last.toInt_lt
  obtain ⟨moved, -, hmoved⟩ := exists_tryFrom_of_lt (n := last.toInt - first.toInt) (by omega) (by omega)
  exact ⟨moved, mapSourceRange_eq_ok.mpr ⟨⟨hnonneg, hlt⟩, first, last, hfirst, hlast, hmoved⟩, hmoved⟩

/-- An edge that moves as its mapped boundary does follows it. -/
theorem edgeMoves_of_mapped {fps : Rational} {source source' edge edge' : TimeCode}
    (hfirst : mapFrames source rate fps = .ok first) (hlast : mapFrames source' rate fps = .ok last)
    (hedge : edge'.toInt = edge.toInt + last.toInt - first.toInt) : EdgeMoves rate fps source source' edge edge' where
  stays hsame := by
    subst hsame
    obtain rfl := ok.inj (hfirst.symm.trans hlast)
    rw [← toInt_inj]
    omega
  later hlt := by
    obtain ⟨moved, hmapped, hmoved⟩ := exists_mapSourceRange hfirst hlast hlt
    exact ⟨moved, hmapped, by omega⟩
  earlier hlt := by
    obtain ⟨moved, hmapped, hmoved⟩ := exists_mapSourceRange hlast hfirst hlt
    exact ⟨moved, hmapped, by omega⟩

/-! ## What a trim makes of a clip -/

/-- What `trim_clip` computes. -/
structure TrimOf (doc : Document) (clip : Clip) (newSource : FrameRange) (rate : Rational)
    (start length duration : TimeCode) : Prop where
  rated : trimFps doc clip newSource = .ok rate
  started : trimStart doc clip rate newSource.start = .ok start
  nonneg : 0 ≤ start.toInt
  length_eq : length.toInt = newSource.stop.toInt - newSource.start.toInt
  lasts : doc.clipDuration (clip.placed start newSource (clampTitle length clip.content)) = .ok duration

/-- The trimmed clip. -/
def trimmed (clip : Clip) (newSource : FrameRange) (start length duration : TimeCode) : Clip :=
  survivor (clip.placed start newSource (clampTitle length clip.content)) (start - clip.timelineStart) duration

theorem trimClip_ok (hdistinct : Distinct doc) (h : trimClip doc id newSource = .ok next) :
    ∃ found clip rate start length duration, trackOf doc found.id = .ok found ∧ clip ∈ found.clips ∧ clip.id = id ∧
      TrimOf doc clip newSource rate start length duration ∧ next = withClips doc found.id
        (found.clips.map (swapped id (trimmed clip newSource start length duration))) := by
  rw [trimClip] at h
  obtain ⟨found, clip, clip', htrack, hclip, hid, hedit, hnext⟩ := editClip_eq hdistinct h
  simp only [bind_eq_ok, Prod.exists, okOr_eq_ok, checkedSub_eq_some, ok.injEq, Prod.mk.injEq] at hedit
  obtain ⟨_, _, ⟨rate, hrate, start, hstart, ⟨⟩, hnonneg, length, hlength, rfl, rfl⟩, hsurvived⟩ := hedit
  obtain ⟨duration, hduration, rfl⟩ := surviveClipEdit_ok hsurvived
  refine ⟨found, clip, rate, start, length, duration, htrack, hclip, hid, ⟨hrate, hstart, ?_, hlength, hduration⟩, hnext⟩
  rw [refuse_eq_ok, Int64.not_lt, le_iff_toInt_le] at hnonneg
  exact hnonneg

/-- A trim that can be computed is made. -/
theorem trimClip_of (hdistinct : Distinct doc) (htrack : found ∈ doc.tracks) (hclip : clip ∈ found.clips)
    (h : TrimOf doc clip newSource rate start length duration) :
    trimClip doc clip.id newSource = .ok (withClips doc found.id
      (found.clips.map (swapped clip.id (trimmed clip newSource start length duration)))) := by
  rw [trimClip, surviveEdit]
  refine editClip_of hdistinct htrack hclip ?_
  have hnonneg : refuse (start < 0) (OpError.negativeTimelinePosition start) = .ok () := by
    rw [refuse_eq_ok, Int64.not_lt, le_iff_toInt_le]
    exact h.nonneg
  have hlength : okOr OpError.timeOverflow (checkedSub newSource.stop newSource.start) = .ok length :=
    okOr_eq_ok.mpr (checkedSub_eq_some.mpr h.length_eq)
  rw [h.rated, ok_bind, h.started, ok_bind, hnonneg, hlength]
  exact surviveClipEdit_eq h.lasts

theorem trimFps_eq_ok : trimFps doc clip newSource = .ok rate ↔ clipRate doc clip = .ok rate ∧ Ranges newSource ∧
    (clip.content = .media → ∀ media ∈ doc.asset clip.asset, newSource.stop ≤ media.duration) := by
  by_cases hmedia : clip.content = .media
  · rw [clipRate_media hmedia]
    simp only [trimFps, hmedia, bind_eq_ok, okOr_eq_ok, mapError_eq_ok]
    constructor
    · rintro ⟨media, hasset, ⟨⟩, hrange, hrate⟩
      obtain ⟨hrange, hstop⟩ := validateSourceRange_eq_ok.mp hrange
      exact ⟨⟨media, hasset, hrate⟩, hrange, fun _ other hother => Option.some.inj (hasset.symm.trans hother) ▸ hstop⟩
    · rintro ⟨⟨media, hasset, hrate⟩, hrange, hstop⟩
      exact ⟨media, hasset, (), validateSourceRange_eq_ok.mpr ⟨hrange, hstop trivial media hasset⟩, hrate⟩
  · rw [clipRate_span hmedia, trimFps]
    split
    · exact absurd ‹_› hmedia
    · rw [then_eq_ok, validateTitleRange_eq_ok, ok.injEq]
      constructor
      · rintro ⟨hrange, rfl⟩
        exact ⟨rfl, hrange, fun hcontent => absurd hcontent hmedia⟩
      · rintro ⟨rfl, hrange, -⟩
        exact ⟨hrange, rfl⟩

/-- The start of a trimmed clip moves as its mapped boundary does. -/
theorem trimStart_eq_ok {newStart : TimeCode} (hfirst : mapFrames clip.sourceRange.start rate doc.fps = .ok first)
    (hlast : mapFrames newStart rate doc.fps = .ok last) :
    trimStart doc clip rate newStart = .ok start ↔ start.toInt = clip.timelineStart.toInt + last.toInt - first.toInt := by
  rw [trimStart]
  by_cases hlater : clip.sourceRange.start < newStart
  · obtain ⟨moved, hmapped, hmoved⟩ := exists_mapSourceRange hfirst hlast hlater
    rw [if_pos hlater, hmapped]
    change okOr OpError.timeOverflow (checkedAdd clip.timelineStart moved) = .ok start ↔ _
    rw [okOr_eq_ok, checkedAdd_eq_some, hmoved, Int.add_sub_assoc]
  · by_cases hearlier : newStart < clip.sourceRange.start
    · obtain ⟨moved, hmapped, hmoved⟩ := exists_mapSourceRange hlast hfirst hearlier
      rw [if_neg hlater, if_pos hearlier, hmapped]
      change okOr OpError.timeOverflow (checkedSub clip.timelineStart moved) = .ok start ↔ _
      rw [okOr_eq_ok, checkedSub_eq_some]
      constructor
      · omega
      · omega
    · have hsame := Int64.le_antisymm (Int64.not_lt.mp hearlier) (Int64.not_lt.mp hlater)
      rw [hsame] at hfirst
      obtain rfl := ok.inj (hfirst.symm.trans hlast)
      rw [if_neg hlater, if_neg hearlier, ok.injEq, eq_comm, ← toInt_inj, Int.add_sub_cancel]

/-- A trim keeps the asset, the speed and the kind of the clip. -/
theorem clipRate_trimmed (doc : Document) (clip : Clip) (newSource : FrameRange) (start length duration : TimeCode) :
    clipRate doc (trimmed clip newSource start length duration) = clipRate doc clip := by
  refine clipRate_congr rfl rfl ?_
  exact identity_clampTitle

theorem isSpan_trimmed (clip : Clip) (newSource : FrameRange) (start length duration : TimeCode) :
    (trimmed clip newSource start length duration).content.isSpan = clip.content.isSpan :=
  congrArg not identity_clampTitle

/-! ## Accepted trims -/

/-- A trim that was accepted. -/
structure Trim (doc after : Document) (found : Track) (clip : Clip) (newSource : FrameRange) (rate : Rational)
    (start length duration : TimeCode) : Prop where
  valid : doc.Valid
  validAfter : after.Valid
  track : trackOf doc found.id = .ok found
  mem : clip ∈ found.clips
  trims : TrimOf doc clip newSource rate start length duration
  left : Left doc after found (found.clips.map (swapped clip.id (trimmed clip newSource start length duration)))
  edited : Edited doc after clip.id clip (trimmed clip newSource start length duration)

theorem exists_trim (h : (Operation.trimClip id newSource).apply doc = .ok after) :
    ∃ found clip rate start length duration, clip.id = id ∧
      Trim doc after found clip newSource rate start length duration := by
  obtain ⟨edited, happlied⟩ := applied_of_apply h
  have hkeep : ({ doc, events := [] } : Draft).keep (trimClip · id newSource) = .ok edited := happlied.edits
  have htrim : trimClip doc id newSource = .ok edited.doc := keep_eq hkeep
  obtain ⟨found, clip, rate, start, length, duration, htrack, hclip, rfl, htrims, hedited⟩ :=
    trimClip_ok happlied.distinct htrim
  have hleft := happlied.left htrack hedited
  have hid : (trimmed clip newSource start length duration).id = clip.id := rfl
  have hmem : trimmed clip newSource start length duration
      ∈ found.clips.map (swapped clip.id (trimmed clip newSource start length duration)) :=
    mem_map.mpr ⟨clip, hclip, if_pos rfl⟩
  refine ⟨found, clip, rate, start, length, duration, rfl, happlied.before, happlied.after, htrack, hclip, htrims, hleft,
    happlied.before.fits.clip_eq_some (mem_clips (mem_of_trackOf htrack) hclip), ?_, ?_⟩
  · exact hid ▸ hleft.clip_eq htrack happlied.after hmem
  · exact hleft.others htrack (filter_swapped hid (mem_singleton_self _) found.clips)

namespace Trim

variable (h : Trim doc after found clip newSource rate start length duration)

include h

theorem clipValid : ∃ duration stop, ClipValid doc found clip duration stop :=
  h.valid.clipValid (mem_of_trackOf h.track) h.mem

theorem clipValid_trimmed :
    ∃ duration' stop, ClipValid doc found (trimmed clip newSource start length duration) duration' stop :=
  h.left.valid _ (mem_map.mpr ⟨clip, h.mem, if_pos rfl⟩)

/-- The trimmed clip is valid, so it lasts. -/
theorem lasts : Lasts doc found (clip.placed start newSource (clampTitle length clip.content))
    (start - clip.timelineStart) duration := by
  obtain ⟨_, _, hvalid⟩ := h.clipValid
  have hadjusts : clampTitle length clip.content = .adjustment ↔ clip.content = .adjustment := by
    cases clip.content <;> simp [clampTitle]
  exact (exists_clipValid_survivor hvalid identity_clampTitle hadjusts h.trims.lasts).mp h.clipValid_trimmed

/-- The boundaries of the clip are mapped before and after the trim, and its start goes with the first of them. -/
theorem mapped : ∃ first last first' last', Mapped doc clip rate first last ∧
    Mapped doc (trimmed clip newSource start length duration) rate first' last' ∧
      start.toInt = clip.timelineStart.toInt + first'.toInt - first.toInt := by
  obtain ⟨_, _, hvalid⟩ := h.clipValid
  obtain ⟨hrate, -, -⟩ := trimFps_eq_ok.mp h.trims.rated
  obtain ⟨_, first, last, hmapped, -⟩ := exists_mapped h.valid.fps hvalid
  obtain rfl := ok.inj (hmapped.rate_eq.symm.trans hrate)
  obtain ⟨_, _, hvalid'⟩ := h.clipValid_trimmed
  obtain ⟨_, first', last', hmapped', -⟩ := exists_mapped h.valid.fps hvalid'
  have hrate' := hmapped'.rate_eq
  rw [clipRate_trimmed, hrate, ok.injEq] at hrate'
  rw [← hrate'] at hmapped'
  exact ⟨first, last, first', last', hmapped, hmapped',
    (trimStart_eq_ok hmapped.first_eq hmapped'.first_eq).mp h.trims.started⟩

end Trim

/-! ## Edges of accepted trims -/

/-- Both edges of the clip follow the edges of its source range. -/
def EdgesFollow (doc after : Document) (id : ClipId) (newSource : FrameRange) : Prop :=
  ∃ clip clip' rate stop stop', doc.clip id = some clip ∧ after.clip id = some clip' ∧ clipRate doc clip = .ok rate ∧
    doc.clipEnd clip = .ok stop ∧ after.clipEnd clip' = .ok stop' ∧
    EdgeMoves rate doc.fps clip.sourceRange.start newSource.start clip.timelineStart clip'.timelineStart ∧
    EdgeMoves rate doc.fps clip.sourceRange.stop newSource.stop stop stop'

theorem Trim.edgesFollow (h : Trim doc after found clip newSource rate start length duration) :
    EdgesFollow doc after clip.id newSource := by
  obtain ⟨first, last, first', last', hmapped, hmapped', hstart⟩ := h.mapped
  obtain ⟨old, stop, hvalid⟩ := h.clipValid
  obtain ⟨new, stop', hvalid'⟩ := h.clipValid_trimmed
  have hold := (hmapped.clipDuration h.valid.fps (ranges_of_validateContent hvalid.content)).mp hvalid.duration_eq
  have hnew := (hmapped'.clipDuration h.valid.fps (ranges_of_validateContent hvalid'.content)).mp hvalid'.duration_eq
  have hstop := hvalid.stop_eq
  have hstop' : stop'.toInt = start.toInt + new.toInt := hvalid'.stop_eq
  refine ⟨clip, _, rate, stop, stop', h.edited.original, h.edited.changed, hmapped.rate_eq, hvalid.clipEnd, ?_, ?_, ?_⟩
  · rw [h.left.footage.clipEnd]
    exact hvalid'.clipEnd
  · exact edgeMoves_of_mapped hmapped.first_eq hmapped'.first_eq hstart
  · exact edgeMoves_of_mapped hmapped.last_eq hmapped'.last_eq (by omega)

/-! ## Undoing a trim -/

/-- The clip is in its old place again, with its old range, and its automation is what it was. -/
structure Restored (doc again : Document) (id : ClipId) (clip clip' : Clip) : Prop where
  original : doc.clip id = some clip
  restored : again.clip id = some clip'
  timelineStart : clip'.timelineStart = clip.timelineStart
  sourceRange : clip'.sourceRange = clip.sourceRange
  clipDuration : again.clipDuration clip' = doc.clipDuration clip
  effects : clip'.effects = clip.effects
  enabledCurve : clip'.enabledCurve = clip.enabledCurve

/-- Where the automation is moved by a trim, and by one back. -/
theorem neg_sub_of_nonneg {a b : TimeCode} (ha : 0 ≤ a.toInt) (hb : 0 ≤ b.toInt) : (b - a).toInt = -(a - b).toInt := by
  rw [toInt_sub_of_nonneg ha hb, toInt_sub_of_nonneg hb ha]
  omega

/-- A clip that was trimmed back is in its old place, and its automation is what it was. -/
theorem restored_effects {effects : List Effect} (h : ∀ effect ∈ effects, effect.Within delta)
    (hback : back.toInt = -delta.toInt) : (effects.map (Effect.moved delta)).map (Effect.moved back) = effects := by
  rw [map_map]
  exact (map_congr_left fun effect heffect => (h effect heffect).moved_back hback).trans (map_id effects)

theorem restored_enabledCurve {enabledCurve : Option AutomationCurve} (h : ∀ curve ∈ enabledCurve, KeysWithin delta curve)
    (hback : back.toInt = -delta.toInt) :
    (enabledCurve.map (rebaseClipCurveKeepOutside · delta)).map (rebaseClipCurveKeepOutside · back) = enabledCurve := by
  cases enabledCurve with
  | none => rfl
  | some curve => exact congrArg some (rebase_rebase (h curve rfl) hback)

section Back

variable {found' : Track} {rate' : Rational} {start' duration' : TimeCode}

theorem Trim.restored (h : Trim doc after found clip newSource rate start length duration)
    (h' : Trim after again found' clip' clip.sourceRange rate' start' length' duration') (hid : clip'.id = clip.id) :
    Restored doc again clip.id clip (trimmed clip' clip.sourceRange start' length' duration') := by
  have horiginal := h'.edited.original
  rw [hid] at horiginal
  obtain rfl := Option.some.inj (h.edited.changed.symm.trans horiginal)
  obtain ⟨_, stop, hvalid⟩ := h.clipValid
  -- both trims map the same boundaries
  obtain ⟨first, last, first', last', hmapped, hmapped', hstart⟩ := h.mapped
  obtain ⟨_, _, _, _, hagain, hagain', hstart'⟩ := h'.mapped
  obtain ⟨rfl, rfl, rfl⟩ := hmapped'.unique (hagain.of_sameFootage h.left.footage) rfl rfl
  have hrates : clipRate doc (trimmed (trimmed clip newSource start length duration) clip.sourceRange start' length'
      duration') = clipRate doc clip := by
    rw [clipRate_trimmed, clipRate_trimmed]
  obtain ⟨-, rfl, rfl⟩ := hmapped.unique (hagain'.of_sameFootage h.left.footage) hrates rfl
  have hold : (trimmed clip newSource start length duration).timelineStart = start := rfl
  rw [hold] at hstart'
  obtain rfl : start' = clip.timelineStart := toInt_inj.mp (by omega)
  have hback := neg_sub_of_nonneg h.trims.nonneg hvalid.start
  have hlasts := h.lasts
  refine ⟨h.edited.original, hid ▸ h'.edited.changed, rfl, rfl, ?_, ?_, ?_⟩
  · have hspan := (isSpan_trimmed (trimmed clip newSource start length duration) clip.sourceRange clip.timelineStart length'
      duration').trans (isSpan_trimmed clip newSource start length duration)
    rw [h'.left.footage.clipDuration, h.left.footage.clipDuration]
    exact Cut.clipDuration_part clip rfl rfl hspan
  · exact restored_effects hlasts.effects hback
  · exact restored_enabledCurve hlasts.enabled hback

end Back

theorem withoutFades_clampTitle (length : TimeCode) (content : ClipContent) :
    withoutFades (clampTitle length content) = withoutFades content := by
  cases content <;> rfl

theorem clampTitle_eq_media {content : ClipContent} : clampTitle length content = .media ↔ content = .media := by
  cases content <;> simp [clampTitle]

/-- The fades of a title that was trimmed are within its length. -/
theorem fadesWithin_clampTitle {content : ClipContent} (h : FadesWithin duration content) (hlength : 0 ≤ length.toInt) :
    FadesWithin length (clampTitle length content) := by
  cases content with
  | title title =>
    obtain ⟨⟨hin, hout⟩, -, -⟩ := h
    refine ⟨⟨?_, ?_⟩, ?_, ?_⟩
    · rw [toInt_min]
      omega
    · rw [toInt_min]
      omega
    all_goals
      rw [le_iff_toInt_le, toInt_min]
      omega
  | _ => trivial

namespace Trim

variable (h : Trim doc after found clip newSource rate start length duration)

include h

/-- The trim back to the old range can be computed. -/
theorem trimOf_back {old stop : TimeCode} (hvalid : ClipValid doc found clip old stop)
    (hlength : length'.toInt = clip.sourceRange.stop.toInt - clip.sourceRange.start.toInt) :
    TrimOf after (trimmed clip newSource start length duration) clip.sourceRange rate clip.timelineStart length' old := by
  have hsame := h.left.footage
  obtain ⟨hrange, hstop, -⟩ := contentWithin_of_clipValid (clipValid_of_sameFootage hsame.symm hvalid)
  obtain ⟨first, last, first', last', hmapped, hmapped', hstart⟩ := h.mapped
  have hback := hmapped'.of_sameFootage hsame.symm
  have hspan : (clampTitle length' (trimmed clip newSource start length duration).content).isSpan = clip.content.isSpan :=
    (congrArg not identity_clampTitle).trans (isSpan_trimmed clip newSource start length duration)
  have hpart : doc.clipDuration ((trimmed clip newSource start length duration).placed clip.timelineStart clip.sourceRange
      (clampTitle length' (trimmed clip newSource start length duration).content)) = doc.clipDuration clip :=
    Cut.clipDuration_part clip rfl rfl hspan
  refine ⟨trimFps_eq_ok.mpr ⟨hback.rate_eq, hrange, fun hmedia => hstop (clampTitle_eq_media.mp hmedia)⟩, ?_, hvalid.start,
    hlength, ?_⟩
  · refine (trimStart_eq_ok hback.first_eq (hmapped.of_sameFootage hsame.symm).first_eq).mpr ?_
    change clip.timelineStart.toInt = start.toInt + first.toInt - first'.toInt
    omega
  · rw [hsame.clipDuration, hpart, hvalid.duration_eq]

/-- In its old place the clip lasts again. -/
theorem lasts_back {old stop : TimeCode} (hvalid : ClipValid doc found clip old stop)
    (hlength : length'.toInt = clip.sourceRange.stop.toInt - clip.sourceRange.start.toInt) :
    Lasts after found ((trimmed clip newSource start length duration).placed clip.timelineStart clip.sourceRange
      (clampTitle length' (trimmed clip newSource start length duration).content)) (clip.timelineStart - start) old := by
  have hsame := h.left.footage
  have hback := neg_sub_of_nonneg h.trims.nonneg hvalid.start
  have hdata := validateClipData_eq_ok.mp hvalid.data
  have henabled := validateEnabled_eq_ok.mp hvalid.enabled
  have hlasts := h.lasts
  obtain ⟨hrange, hstop, hfades⟩ := contentWithin_of_clipValid (clipValid_of_sameFootage hsame.symm hvalid)
  obtain ⟨_, _, hvalid'⟩ := h.clipValid_trimmed
  have hafter := clipValid_of_sameFootage hsame.symm hvalid'
  have hduration := (h.trimOf_back hvalid hlength).lasts
  have hwithin : FadesWithin old (clampTitle length' (trimmed clip newSource start length duration).content) := by
    by_cases hmedia : clip.content = .media
    · have hcontent : (trimmed clip newSource start length duration).content = .media := by
        change clampTitle length clip.content = .media
        rw [hmedia]
        rfl
      rw [hcontent]
      trivial
    · obtain rfl : length' = old := by
        rw [← toInt_inj, hlength, (clipDuration_span hmedia).mp hvalid.duration_eq]
      refine fadesWithin_clampTitle (fadesWithin_clampTitle hfades ?_) hvalid.pos.le
      obtain ⟨-, hnew, -⟩ := trimFps_eq_ok.mp h.trims.rated
      have hlong := h.trims.length_eq
      rw [Ranges] at hnew
      omega
  refine ⟨hvalid.start, ?_, hvalid.pos, hvalid.stop_eq ▸ stop.toInt_lt, fun transition hmem => ?_, ?_, ?_⟩
  · refine (validateContent_placed hafter.content hafter.duration_eq (withoutFades_clampTitle _ _) hduration).mpr ?_
    exact ⟨hrange, fun hmedia => hstop (clampTitle_eq_media.mp (clampTitle_eq_media.mp hmedia)), hwithin⟩
  · exact ((validateTransition_eq_ok hvalid.duration_eq).mp (hdata.transition transition hmem)).2
  · change ∀ effect ∈ clip.effects.map (Effect.moved (start - clip.timelineStart)), effect.Within _
    rw [forall_mem_map]
    exact fun effect heffect => (hdata.each effect heffect).automation.within_back (hlasts.effects effect heffect) hback
  · intro curve hcurve
    obtain ⟨old, hold, rfl⟩ := Option.map_eq_some_iff.mp hcurve
    have hcheck := henabled old hold
    rw [validateClipEnabledCurve, then_eq_ok, mapError_eq_ok] at hcheck
    exact keysWithin_back hcheck.1 (hlasts.enabled old hold) hback

/-- After a trim the old range can be given back. -/
theorem exists_restore : ∃ again, (Operation.trimClip clip.id clip.sourceRange).apply after = .ok again := by
  obtain ⟨old, stop, hvalid⟩ := h.clipValid
  have hrange := ranges_of_validateContent hvalid.content
  obtain ⟨length', -, hlength⟩ := exists_tryFrom_of_lt (n := clip.sourceRange.stop.toInt - clip.sourceRange.start.toInt)
    (by rw [Ranges] at hrange; omega) (by have := clip.sourceRange.stop.toInt_lt; rw [Ranges] at hrange; omega)
  have hsame := h.left.footage
  have htrims := h.trimOf_back hvalid hlength
  obtain ⟨_, _, hvalid'⟩ := h.clipValid_trimmed
  have hadjusts : clampTitle length' (trimmed clip newSource start length duration).content = .adjustment ↔
      (trimmed clip newSource start length duration).content = .adjustment := by
    cases (trimmed clip newSource start length duration).content <;> simp [clampTitle]
  have hrestored := (exists_clipValid_survivor (clipValid_of_sameFootage hsame.symm hvalid') identity_clampTitle hadjusts
    htrims.lasts).mpr (h.lasts_back hvalid hlength)
  have hback := h.left.trackOf_eq h.track
  have hedit := trimClip_of (distinct_of_fits h.validAfter.fits) (mem_of_trackOf hback)
    (mem_map.mpr ⟨clip, h.mem, if_pos rfl⟩) htrims
  refine exists_apply_back (trimClip · clip.id clip.sourceRange) (fun draft => rfl) h.valid h.validAfter h.track h.mem
    (by rfl) h.left (by rfl) hrestored ⟨by rfl, ?_⟩ hedit
  have hduration : after.clipDuration clip = .ok old := (hsame.clipDuration clip).trans hvalid.duration_eq
  have hduration' := htrims.lasts
  rw [← clipDuration_survivor _ _ (clip.timelineStart - start) old] at hduration'
  rw [Document.clipEnd, Document.clipEnd, hduration, hduration']
  rfl

end Trim

/-- An accepted trim moves each edge of the clip with its edge of the source range, and can be undone. -/
theorem trimClip_reversible (h : (Operation.trimClip id newSource).apply doc = .ok after) :
    EdgesFollow doc after id newSource ∧ ∃ clip again clip', doc.clip id = some clip ∧
      (Operation.trimClip id clip.sourceRange).apply after = .ok again ∧ Restored doc again id clip clip' := by
  obtain ⟨found, clip, rate, start, length, duration, rfl, htrim⟩ := exists_trim h
  obtain ⟨again, hagain⟩ := htrim.exists_restore
  obtain ⟨found', clip', rate', start', length', duration', hid, htrim'⟩ := exists_trim hagain
  exact ⟨htrim.edgesFollow, clip, again, _, htrim.edited.original, hagain, htrim.restored htrim' hid⟩

/-- The project of a second, with a clip that is enabled after some frames. -/
def switched : Document :=
  { Timeline.demoDocument with
    tracks :=
      [{ id := 1
         kind := .video
         syncLock := false
         clips := [{ Timeline.demoClip with enabledCurve := some (ramp .hold 10 1) }] }] }

/-- A trim by two frames at the head moves the first key of the clip before its new start. -/
theorem trimClip_reversible_switched : ∃ after, (Operation.trimClip 1 ⟨12, 30⟩).apply switched = .ok after ∧
    EdgesFollow switched after 1 ⟨12, 30⟩ ∧ ∃ clip again clip', switched.clip 1 = some clip ∧
      (Operation.trimClip 1 clip.sourceRange).apply after = .ok again ∧ Restored switched again 1 clip clip' := by
  obtain ⟨after, hafter⟩ : ∃ after, (Operation.trimClip 1 ⟨12, 30⟩).apply switched = .ok after :=
    exists_ok (by decide +kernel)
  exact ⟨after, hafter, trimClip_reversible hafter⟩

end Kinewright.Edits
