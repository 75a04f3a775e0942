import Kinewright.Edits.Frames

/-!
# Edits of one track

A split, a deletion and an insertion exchange the clips of one track. What they leave there is said exactly.
-/

namespace Kinewright.Edits

open Fallible Model List Except Document

/-! ## The clips of a track -/

/-- The track with other clips. -/
def setClips (clips : List Clip) (track : Track) : Track := { track with clips }

theorem id_setClips (clips : List Clip) (track : Track) : (setClips clips track).id = track.id := rfl

/-- The document with other clips on the track. -/
def withClips (doc : Document) (track : TrackId) (clips : List Clip) : Document :=
  { doc with tracks := doc.tracks.modifyFirst (fun other => other.id = track) (setClips clips) }

/-- No two tracks and no two clips have the same id. -/
structure Distinct (doc : Document) : Prop where
  trackIds : (doc.tracks.map Track.id).Nodup
  clipIds : (doc.clips.map Clip.id).Nodup

theorem distinct_of_fits {doc : Document} (hfits : doc.Fits) : Distinct doc := ⟨hfits.trackIds, hfits.clipIds⟩

variable {doc after : Document} {track other : TrackId} {found : Track} {clips : List Clip} {clip original : Clip}

theorem withClips_withClips (clips' : List Clip) :
    withClips (withClips doc track clips) track clips' = withClips doc track clips' := by
  have hkind (other : Track) : decide ((setClips clips other).id = track) = decide (other.id = track) := rfl
  rw [withClips, withClips]
  rw [modifyFirst_modifyFirst hkind]
  rfl

section

variable (htrack : trackOf doc track = .ok found)

include htrack

theorem withClips_self : withClips doc track found.clips = doc := by
  rw [withClips, modifyFirst_congr (okOr_eq_ok.mp htrack) (g := fun other => other) rfl, modifyFirst_self]

theorem id_of_trackOf : found.id = track := by
  simpa using find?_some (okOr_eq_ok.mp htrack)

theorem mem_of_trackOf : found ∈ doc.tracks := mem_of_find?_eq_some (okOr_eq_ok.mp htrack)

theorem trackOf_withClips : trackOf (withClips doc track clips) track = .ok (setClips clips found) := by
  rw [trackOf, okOr_eq_ok] at htrack ⊢
  rw [withClips, find?_modifyFirst_key (id_setClips clips), htrack, Option.map_some, if_pos rfl]

end

theorem trackOf_withClips_of_ne (hne : other ≠ track) :
    trackOf (withClips doc track clips) other = trackOf doc other := by
  rw [trackOf, trackOf, withClips, find?_modifyFirst_key (id_setClips clips)]
  cases doc.tracks.find? fun track => track.id = other with
  | none => rfl
  | some found => rw [Option.map_some, if_neg hne]

/-- The clips of the other tracks stay. -/
theorem exists_clips_withClips (htrack : trackOf doc track = .ok found) : ∃ rest, doc.clips.Perm (found.clips ++ rest) ∧
      ∀ clips, (withClips doc track clips).clips.Perm (clips ++ rest) := by
  obtain ⟨rest, hrest, hmodify⟩ := exists_flatMap_modifyFirst (f := Track.clips) (okOr_eq_ok.mp htrack)
  exact ⟨rest, hrest, fun clips => hmodify (setClips clips)⟩

namespace Distinct

section

variable (h : Distinct doc)

include h

/-- The clips of a track may be exchanged for any with new ids or ids of their own. -/
theorem withClips (htrack : trackOf doc track = .ok found) (hnodup : (clips.map Clip.id).Nodup)
    (hids : ∀ id ∈ clips.map Clip.id, id ∈ found.clips.map Clip.id ∨ id ∉ doc.clips.map Clip.id) :
    Distinct (withClips doc track clips) := by
  refine ⟨?_, ?_⟩
  · rw [Edits.withClips, map_modifyFirst fun other _ => id_setClips clips other]
    exact h.trackIds
  · obtain ⟨rest, hrest, hclips⟩ := exists_clips_withClips htrack
    have hbefore := (hrest.map Clip.id).nodup_iff.mp h.clipIds
    rw [((hclips clips).map Clip.id).nodup_iff, map_append, nodup_append]
    rw [map_append, nodup_append] at hbefore
    refine ⟨hnodup, hbefore.2.1, fun id hid id' hid' heq => ?_⟩
    subst heq
    rcases hids id hid with hfound | hfresh
    · exact hbefore.2.2 id hfound id hid' rfl
    · refine hfresh ((hrest.map Clip.id).mem_iff.mpr ?_)
      rw [map_append]
      exact mem_append_right _ hid'

theorem clips_nodup (htrack : trackOf doc track = .ok found) : (found.clips.map Clip.id).Nodup := by
  obtain ⟨rest, hrest, -⟩ := exists_clips_withClips htrack
  have hbefore := (hrest.map Clip.id).nodup_iff.mp h.clipIds
  rw [map_append] at hbefore
  exact hbefore.of_append_left

/-- Clips with the same id are the same clip. -/
theorem eq_of_id {other : Clip} (hclip : clip ∈ doc.clips) (hother : other ∈ doc.clips)
    (heq : clip.id = other.id) : clip = other :=
  inj_on_of_nodup_map h.clipIds hclip hother heq

/-- The clip of the track is found where it is. -/
theorem placeOf (htrack : trackOf doc track = .ok found) (hclip : clip ∈ found.clips)
    {place : Place} (hplace : placeOf doc clip.id = .ok place) :
    place.track = found ∧ place.clip = clip ∧ found.clips[place.clipIndex]? = some clip ∧
      ∀ clips, place.setClips doc clips = Edits.withClips doc track clips := by
  obtain ⟨htrackAt, hclipAt, hid⟩ := placeOf_ok hplace
  have hmem := mem_of_getElem? htrackAt
  have hclipMem := mem_of_getElem? hclipAt
  have hsame : place.clip = clip := h.eq_of_id (mem_clips hmem hclipMem) (mem_clips (mem_of_trackOf htrack) hclip) hid
  have hnodup := h.clipIds.of_map
  rw [Document.clips, nodup_flatMap] at hnodup
  have hfound : place.track = found := by
    have : Std.Symm (Function.onFun List.Disjoint Track.clips) := ⟨fun _ _ hd => hd.symm⟩
    by_contra hne
    exact hnodup.2.forall hmem (mem_of_trackOf htrack) hne (hsame ▸ hclipMem) hclip
  refine ⟨hfound, hsame, hsame ▸ hfound ▸ hclipAt, fun clips => ?_⟩
  rw [Edits.withClips]
  have hset := set_eq_modifyFirst h.trackIds htrackAt (setClips clips)
  rw [← id_of_trackOf htrack, ← hfound, ← hset]
  rfl

/-- A track is found by its id. -/
theorem trackOf (htrack : found ∈ doc.tracks) : Edits.trackOf doc found.id = .ok found := by
  rw [Edits.trackOf, okOr_eq_ok]
  exact find?_key h.trackIds htrack

end

end Distinct

/-! ## Deleting and adding -/

theorem deleteClip_eq (h : Distinct doc) (htrack : trackOf doc track = .ok found) (hclip : clip ∈ found.clips)
    (hdelete : deleteClip doc clip.id = .ok after) :
    after = withClips doc track (found.clips.filter fun other => other.id ≠ clip.id) := by
  rw [deleteClip, bind_eq_ok] at hdelete
  obtain ⟨place, hplace, hdelete⟩ := hdelete
  obtain rfl := ok.inj hdelete
  obtain ⟨hfound, -, hat, hset⟩ := h.placeOf htrack hclip hplace
  rw [Place.remove, hset, hfound, eraseIdx_eq_filter (h.clips_nodup htrack) hat]

theorem insertClip_eq (htrack : trackOf doc track = .ok found) :
    insertClip doc track clip = withClips doc track ((found.clips ++ [clip]).insertionSort Clip.le) := by
  rw [insertClip, withClips, modifyFirst_congr (okOr_eq_ok.mp htrack)]
  rfl

/-! ## Durations -/

/-- The duration of a clip of media is mapped. -/
theorem clipDuration_media {duration : TimeCode} (hmedia : clip.content = .media) :
    doc.clipDuration clip = .ok duration ↔ ∃ asset effective, doc.asset clip.asset = some asset ∧
      clipEffectiveFps asset.fps clip = .ok effective ∧
        mapSourceRangeToProject clip.sourceRange.start clip.sourceRange.stop effective doc.fps = .ok duration := by
  have hspan : clip.content.isSpan = false := by
    rw [hmedia]
    rfl
  rw [clipDuration, if_neg (by simp [hspan])]
  simp only [bind_eq_ok, okOr_eq_ok, mapError_eq_ok]
  constructor
  · rintro ⟨asset, hasset, effective, heffective, hmapped⟩
    exact ⟨asset, effective, hasset, heffective, hmapped⟩
  · rintro ⟨asset, effective, hasset, heffective, hmapped⟩
    exact ⟨asset, hasset, effective, heffective, hmapped⟩

/-- The duration of a span is its length. -/
theorem clipDuration_span {duration : TimeCode} (hspan : clip.content ≠ .media) : doc.clipDuration clip = .ok duration ↔
      duration.toInt = clip.sourceRange.stop.toInt - clip.sourceRange.start.toInt := by
  have hspan : clip.content.isSpan = true := by simpa [ClipContent.isSpan, ClipContent.isMedia] using hspan
  rw [clipDuration, if_pos hspan, okOr_eq_ok, checkedSub_eq_some]

/-! ## Splitting -/

/-- Where a clip is split. -/
structure Cut (doc : Document) (original : Clip) (at_ : TimeCode) where
  stop : TimeCode
  offset : TimeCode
  boundary : TimeCode
  clipEnd : doc.clipEnd original = .ok stop
  start_lt : original.timelineStart < at_
  lt_stop : at_ < stop
  offset_eq : offset.toInt = at_.toInt - original.timelineStart.toInt
  boundary_eq : doc.splitBoundary original at_ offset = .ok boundary

namespace Cut

variable {at_ : TimeCode} (cut : Cut doc original at_)

/-- The frames from the cut to the end. -/
def remaining : TimeCode := cut.stop - at_

/-- The clip up to the cut. -/
def left : Clip :=
  clampClipAudioFades (rebaseClipAutomation (splitLeft original cut.boundary cut.offset) 0 cut.offset) cut.offset

/-- The content from the cut on. -/
def rightContent : ClipContent :=
  match original.content with
  | .title title =>
    .title { title with fadeInFrames := 0, fadeOutFrames := min title.fadeOutFrames cut.remaining }
  | content => content

/-- The clip from the cut on. -/
def right (id : ClipId) : Clip :=
  clampClipAudioFades (rebaseClipAutomation
    { original with
      id := id
      sourceRange := { original.sourceRange with start := cut.boundary }
      content := cut.rightContent
      timelineStart := at_
      transitionIn := none
      audioFadeInFrames := 0 } cut.offset cut.remaining) cut.remaining

/-- A part of a clip that keeps the asset, the speed and the kind of content. -/
theorem clipDuration_part (original : Clip) {part : Clip} (hasset : part.asset = original.asset)
    (hspeed : part.speedPercent = original.speedPercent) (hspan : part.content.isSpan = original.content.isSpan) :
    doc.clipDuration part = doc.clipDuration { original with sourceRange := part.sourceRange } := by
  rw [clipDuration, clipDuration, hspan, hasset]
  simp [clipEffectiveFps, hspeed]

/-- The source boundary is where the left part has the frames up to the cut, and the right part the rest. -/
theorem durations {duration : TimeCode} (hright : doc.clipDuration
      { original with sourceRange := { original.sourceRange with start := cut.boundary } } = .ok duration) :
    doc.clipDuration { original with sourceRange := { original.sourceRange with stop := cut.boundary } }
        = .ok cut.offset ∧ duration.toInt = cut.stop.toInt - at_.toInt := by
  have hstop := cut.clipEnd
  rw [Document.clipEnd, bind_eq_ok] at hstop
  obtain ⟨whole, hwhole, hstop⟩ := hstop
  rw [okOr_eq_ok, checkedAdd_eq_some] at hstop
  have hboundary := cut.boundary_eq
  have hoffset := cut.offset_eq
  by_cases hmedia : original.content = .media
  · have hwhole := (clipDuration_media hmedia).mp hwhole
    have hright := (clipDuration_media (by exact hmedia)).mp hright
    rw [clipDuration_media (by exact hmedia)]
    obtain ⟨asset, effective, hasset, heffective, hmapped⟩ := splitBoundary_ok hmedia hboundary
    obtain ⟨_, _, hasset', heffective', hwhole⟩ := hwhole
    obtain rfl := Option.some.inj (hasset.symm.trans hasset')
    obtain rfl := ok.inj (heffective.symm.trans heffective')
    obtain ⟨_, _, hasset', heffective', hright⟩ := hright
    obtain rfl := Option.some.inj (hasset.symm.trans hasset')
    obtain rfl := ok.inj (heffective.symm.trans heffective')
    refine ⟨⟨asset, effective, hasset, heffective, hmapped⟩, ?_⟩
    have hleft := (mapSourceRange_ok hmapped).2.2.2.2
    have hwhole := (mapSourceRange_ok hwhole).2.2.2.2
    have hright := (mapSourceRange_ok hright).2.2.2.2
    dsimp only at hright
    omega
  · have hsum : cut.boundary.toInt = original.sourceRange.start.toInt + cut.offset.toInt := by
      rw [splitBoundary] at hboundary
      split at hboundary
      · exact absurd ‹_› hmedia
      · exact checkedAdd_eq_some.mp (okOr_eq_ok.mp hboundary)
    have hwhole := (clipDuration_span hmedia).mp hwhole
    have hright := (clipDuration_span (by exact hmedia)).mp hright
    rw [clipDuration_span (by exact hmedia)]
    dsimp only at hright ⊢
    omega

/-- What the two parts are in the document. -/
structure Halved (id : ClipId) : Prop where
  remaining_eq : cut.remaining.toInt = cut.stop.toInt - at_.toInt
  leftDuration : doc.clipDuration cut.left = .ok cut.offset
  rightDuration : doc.clipDuration (cut.right id) = .ok cut.remaining

variable {cut} {id : ClipId}

theorem Halved.leftEnd (h : cut.Halved id) : doc.clipEnd cut.left = .ok at_ := by
  rw [Document.clipEnd, h.leftDuration, ok_bind, okOr_eq_ok, checkedAdd_eq_some, cut.offset_eq]
  show at_.toInt = original.timelineStart.toInt + (at_.toInt - original.timelineStart.toInt)
  omega

theorem Halved.rightEnd (h : cut.Halved id) : doc.clipEnd (cut.right id) = .ok cut.stop := by
  rw [Document.clipEnd, h.rightDuration, ok_bind, okOr_eq_ok, checkedAdd_eq_some, h.remaining_eq]
  show cut.stop.toInt = at_.toInt + (cut.stop.toInt - at_.toInt)
  omega

/-- The right part is of the same asset, at the same speed. -/
theorem splitRight_range {boundary stop : TimeCode} {raw : Clip}
    (h : splitRight original id boundary at_ stop = .ok raw) :
    raw.asset = original.asset ∧ raw.speedPercent = original.speedPercent ∧
      raw.content.isSpan = original.content.isSpan ∧
        raw.sourceRange = { original.sourceRange with start := boundary } := by
  rw [splitRight] at h
  cases hcontent : original.content with
  | title title =>
    simp only [hcontent, bind_eq_ok, ok_bind, ok.injEq] at h
    obtain ⟨rest, -, rfl⟩ := h
    exact ⟨rfl, rfl, rfl, rfl⟩
  | _ =>
    simp only [hcontent, ok_bind, ok.injEq] at h
    obtain rfl := h
    exact ⟨rfl, rfl, rfl, rfl⟩

theorem splitLeft_isSpan (original : Clip) (boundary offset : TimeCode) :
    (splitLeft original boundary offset).content.isSpan = original.content.isSpan := by
  cases hcontent : original.content with
  | title title => simp [splitLeft, hcontent, ClipContent.isSpan, ClipContent.isMedia]
  | _ => simp [splitLeft, hcontent]

/-- The part after the cut, as it is first built. -/
theorem splitRight_eq (cut : Cut doc original at_) {raw : Clip}
    (hremaining : cut.remaining.toInt = cut.stop.toInt - at_.toInt)
    (h : splitRight original id cut.boundary at_ cut.stop = .ok raw) :
    raw =
      { original with
        id := id
        sourceRange := { original.sourceRange with start := cut.boundary }
        content := cut.rightContent
        timelineStart := at_
        transitionIn := none
        audioFadeInFrames := 0 } := by
  rw [splitRight] at h
  rw [rightContent]
  cases hcontent : original.content with
  | title title =>
    simp only [hcontent, bind_eq_ok, okOr_eq_ok, checkedSub_eq_some, ok_bind, ok.injEq] at h
    obtain ⟨rest, hrest, h⟩ := h
    rw [← hremaining, Int64.toInt_inj] at hrest
    rw [← h, hrest]
  | _ =>
    simp only [hcontent, ok_bind, ok.injEq] at h
    exact h.symm

end Cut

/-- A split puts the two parts in the place of the clip. -/
theorem splitClip_eq {at_ : TimeCode} (h : Distinct doc) (htrack : trackOf doc track = .ok found)
    (hclip : clip ∈ found.clips) (hsplit : splitClip doc clip.id at_ = .ok after) :
    ∃ (cut : Cut doc clip at_) (id : ClipId) (clips : List Clip), doc.nextClipId = .ok id ∧ cut.Halved id ∧
      clips.Perm (cut.left :: cut.right id :: found.clips.filter fun other => other.id ≠ clip.id) ∧
        after = withClips doc track clips := by
  rw [splitClip, bind_eq_ok] at hsplit
  obtain ⟨⟨trackIndex, clipIndex⟩, hplace, hsplit⟩ := hsplit
  obtain ⟨foundTrack, htrackAt, hsplit⟩ := bind_eq_ok.mp hsplit
  obtain ⟨foundClip, hclipAt, hsplit⟩ := bind_eq_ok.mp hsplit
  have hplaceOf : placeOf doc clip.id = .ok ⟨trackIndex, clipIndex, foundTrack, foundClip⟩ := by
    simp only [placeOf, bind_eq_ok]
    exact ⟨_, hplace, _, htrackAt, _, hclipAt, rfl⟩
  obtain ⟨rfl, rfl, hat, hset⟩ := h.placeOf htrack hclip hplaceOf
  obtain ⟨stop, hstop, hsplit⟩ := bind_eq_ok.mp hsplit
  rw [unless_eq_ok, bind_eq_ok] at hsplit
  obtain ⟨hinside, offset, hoffset, hsplit⟩ := hsplit
  obtain ⟨boundary, hboundary, hsplit⟩ := bind_eq_ok.mp hsplit
  obtain ⟨id, hid, hsplit⟩ := bind_eq_ok.mp hsplit
  obtain ⟨raw, hraw, hsplit⟩ := bind_eq_ok.mp hsplit
  obtain ⟨right, hright, hsplit⟩ := bind_eq_ok.mp hsplit
  obtain ⟨clips, hclips, hsplit⟩ := bind_eq_ok.mp hsplit
  obtain rfl := ok.inj hsplit
  rw [not_or, Int64.not_le, Int64.not_le] at hinside
  rw [okOr_eq_ok, checkedSub_eq_some] at hoffset
  let cut : Cut doc foundClip at_ :=
    { stop, offset, boundary
      clipEnd := hstop
      start_lt := hinside.1
      lt_stop := hinside.2
      offset_eq := hoffset
      boundary_eq := hboundary }
  obtain ⟨duration, hduration, rfl⟩ := surviveClipEdit_ok hright
  have hfresh : id ∉ foundTrack.clips.map Clip.id := by
    intro hmem
    obtain ⟨other, hother, heq⟩ := mem_map.mp hmem
    exact nextClipId_fresh hid (mem_map.mpr ⟨other, mem_clips (mem_of_trackOf htrack) hother, heq⟩)
  have hlength : doc.clipDuration
      { foundClip with sourceRange := { foundClip.sourceRange with start := cut.boundary } } = .ok duration := by
    obtain ⟨hasset, hspeed, hspan, hrange⟩ := Cut.splitRight_range hraw
    rw [← hduration, Cut.clipDuration_part foundClip hasset hspeed hspan, hrange]
  obtain ⟨hleft, hremaining⟩ := cut.durations hlength
  obtain rfl : cut.remaining = duration := sub_eq_of_toInt hremaining
  obtain rfl := Cut.splitRight_eq cut hremaining hraw
  have hleftDuration : doc.clipDuration (splitLeft foundClip boundary offset) = .ok offset := by
    have hspan := Cut.splitLeft_isSpan foundClip boundary offset
    have hasset : (splitLeft foundClip boundary offset).asset = foundClip.asset := rfl
    rw [Cut.clipDuration_part foundClip hasset rfl hspan]
    exact hleft
  have hids : (foundTrack.clips.map Clip.id).Nodup := h.clips_nodup htrack
  have hleftId : (splitLeft foundClip boundary offset).id = foundClip.id := rfl
  obtain ⟨left, hsurvived, hperm⟩ := splitClips_perm hids hat hleftId hfresh hclips
  have hlefteq : left = cut.left := by
    obtain ⟨leftDuration, hleftDuration', rfl⟩ := surviveClipEdit_ok hsurvived
    rw [hleftDuration] at hleftDuration'
    obtain rfl := ok.inj hleftDuration'
    rfl
  refine ⟨cut, id, clips, hid, ⟨hremaining, hleftDuration, hduration⟩, ?_, (hset clips).symm ▸ rfl⟩
  rw [hlefteq, eraseIdx_eq_filter hids hat] at hperm
  exact hperm

end Kinewright.Edits
