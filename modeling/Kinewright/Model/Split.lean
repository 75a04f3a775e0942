import Kinewright.Lib.Bisect
import Kinewright.Model.Validate

/-!
# Splitting a clip

`split_clip` of `operation.rs`: the clip keeps its start, and a clip with a new id goes on from the
frame of the split. The boundary in the source is searched, so that the left part ends exactly at
that frame.
-/

namespace Kinewright.Model

open Fallible List
open Option hiding mem_map

/-! ## The boundary in the source -/

/-- The halving of `find_source_boundary`. The range starts at zero or later, so neither the middle
nor the bounds beside it overflow. -/
def searchBoundary (source : FrameRange) (projectOffset : TimeCode) (sourceFps projectFps : Rational) :
    ℕ → ℤ → ℤ → Option TimeCode
  | 0, _, _ => none
  | fuel + 1, low, high => if low ≤ high then let middle := low + (high - low) / 2
      match mapSourceRangeToProject source.start (Int64.ofInt middle) sourceFps projectFps with
      | .error _ => none
      | .ok mapped =>
        if mapped < projectOffset then
          searchBoundary source projectOffset sourceFps projectFps fuel (middle + 1) high
        else if projectOffset < mapped then
          searchBoundary source projectOffset sourceFps projectFps fuel low (middle - 1)
        else some (Int64.ofInt middle)
    else none

/-- `find_source_boundary`: the search has a step for each frame of the range. -/
def findSourceBoundary (source : FrameRange) (projectOffset : TimeCode)
    (sourceFps projectFps : Rational) : Option TimeCode := do
  let low ← checkedAdd source.start 1
  let high ← checkedSub source.stop 1
  searchBoundary source projectOffset sourceFps projectFps (high.toInt - low.toInt + 1).toNat low.toInt high.toInt

section Search

variable {source : FrameRange} {projectOffset boundary : TimeCode} {sourceFps projectFps : Rational}

/-- The side of the searched length on which a mapped length is. -/
def sideOf (projectOffset : TimeCode) (mapped : Except TimeMappingError TimeCode) : Option Ordering :=
  mapped.toOption.map fun mapped =>
    if mapped < projectOffset then .lt else if projectOffset < mapped then .gt else .eq

theorem sideOf_eq {mapped : Except TimeMappingError TimeCode} :
    sideOf projectOffset mapped = some .eq ↔ mapped = .ok projectOffset := by
  cases mapped with
  | error error => simp [sideOf, Except.toOption]
  | ok mapped =>
    simp only [sideOf, Except.toOption, map_some, Option.some.injEq, Except.ok.injEq]
    constructor
    · intro h
      split_ifs at h with hless hgreater
      exact Int64.le_antisymm (Int64.not_lt.mp hgreater) (Int64.not_lt.mp hless)
    · rintro rfl
      simp

/-- The search halves the range by the side of each middle. -/
theorem searchBoundary_eq (fuel : ℕ) (low high : ℤ) :
    searchBoundary source projectOffset sourceFps projectFps fuel low high = (Bisect.find (fun n =>
      sideOf projectOffset (mapSourceRangeToProject source.start (Int64.ofInt n) sourceFps projectFps)) fuel low high).map
        Int64.ofInt := by
  induction fuel generalizing low high with
  | zero => rfl
  | succ fuel ih =>
    rw [searchBoundary, Bisect.find]
    by_cases hle : low ≤ high
    · rw [if_pos hle, if_pos hle]
      dsimp only
      cases mapSourceRangeToProject source.start (Int64.ofInt (low + (high - low) / 2)) sourceFps projectFps with
      | error error => rfl
      | ok mapped =>
        simp only [sideOf, Except.toOption, map_some]
        split_ifs with hless hgreater
        · exact ih _ _
        · exact ih _ _
        · rfl
    · rw [if_neg hle, if_neg hle]
      rfl

/-- A boundary that was found is between the bounds of the search, and maps to the offset that was searched. -/
theorem searchBoundary_ok {fuel : ℕ} {low high : ℤ}
    (h : searchBoundary source projectOffset sourceFps projectFps fuel low high = some boundary) :
    ∃ n, low ≤ n ∧ n ≤ high ∧ Int64.ofInt n = boundary ∧
      mapSourceRangeToProject source.start boundary sourceFps projectFps = .ok projectOffset := by
  rw [searchBoundary_eq, map_eq_some_iff] at h
  obtain ⟨n, hfound, rfl⟩ := h
  obtain ⟨hlow, hhigh, hside⟩ := Bisect.find_ok hfound
  exact ⟨n, hlow, hhigh, rfl, sideOf_eq.mp hside⟩

theorem findSourceBoundary_ok (h : findSourceBoundary source projectOffset sourceFps projectFps = some boundary) :
    mapSourceRangeToProject source.start boundary sourceFps projectFps = .ok projectOffset := by
  rw [findSourceBoundary, bind_eq_bind, bind_eq_some_iff] at h
  obtain ⟨low, -, h⟩ := h
  obtain ⟨high, -, h⟩ := bind_eq_some_iff.mp h
  obtain ⟨-, -, -, -, hmapped⟩ := searchBoundary_ok h
  exact hmapped

end Search

/-! ## What survives an edit of a clip -/

/-- `rebase_clip_automation`. -/
def rebaseClipAutomation (clip : Clip) (deltaLocal newDuration : TimeCode) : Clip :=
  { clip with
    audioGainCurve := clip.audioGainCurve.map (rebaseClipCurve · deltaLocal newDuration)
    effects := clip.effects.map fun effect =>
      { effect with
        keyframes := effect.keyframes.map fun _ curve => rebaseClipCurveKeepOutside curve deltaLocal
        enabledCurve := effect.enabledCurve.map (rebaseClipCurveKeepOutside · deltaLocal) }
    enabledCurve := clip.enabledCurve.map (rebaseClipCurveKeepOutside · deltaLocal) }

/-- The fades of `clamp_clip_audio_fades`. -/
def clampFades (fadeIn fadeOut duration : TimeCode) : TimeCode × TimeCode :=
  if duration < saturatingAdd fadeIn fadeOut then
    let fadeOut := duration - fadeIn
    if duration < saturatingAdd fadeIn fadeOut then (duration - fadeOut, fadeOut)
    else (fadeIn, fadeOut)
  else (fadeIn, fadeOut)

/-- `clamp_clip_audio_fades`. -/
def clampClipAudioFades (clip : Clip) (newDuration : TimeCode) : Clip :=
  let duration := max newDuration 0
  let fades := clampFades (min (max clip.audioFadeInFrames 0) duration)
    (min (max clip.audioFadeOutFrames 0) duration) duration
  { clip with
    audioFadeInFrames := fades.1
    audioFadeOutFrames := fades.2 }

namespace Document

variable (doc : Document)

/-- `survive_clip_edit`, on the clip. -/
def surviveClipEdit (clip : Clip) (deltaLocal : TimeCode) : Except OpError Clip := do
  let newDuration ← doc.clipDuration clip
  .ok (clampClipAudioFades (rebaseClipAutomation clip deltaLocal newDuration) newDuration)

/-! ## The split -/

/-- `next_clip_id`. -/
def nextClipId : Except OpError ClipId :=
  let last := (doc.clips.map Clip.id).max?.getD 0
  if last + 1 < 2 ^ 64 then .ok (last + 1) else .error .clipIdExhausted

end Document

/-- `find_clip`: the position of the clip's track, and the clip's on it. -/
def findClip (id : ClipId) : List Track → Option (ℕ × ℕ)
  | [] => none
  | track :: tracks => match track.clips.findIdx? fun clip => clip.id = id with
    | some clipIndex => some (0, clipIndex)
    | none => (findClip id tracks).map fun found => (found.1 + 1, found.2)

/-- The order of the clips of a track, `(timeline_start, id)`. -/
def Clip.le (clip other : Clip) : Prop :=
  clip.timelineStart < other.timelineStart ∨ clip.timelineStart = other.timelineStart ∧ clip.id ≤ other.id

instance : DecidableRel Clip.le := fun _ _ => inferInstanceAs (Decidable (_ ∨ _))

/-- The frame of the source range at which a clip is split. -/
def Document.splitBoundary (doc : Document) (original : Clip) (at_ offset : TimeCode) : Except OpError TimeCode :=
  match original.content with
  | .media => do
    let asset ← okOr (.missingAsset original.asset) (doc.asset original.asset)
    let effective ← (clipEffectiveFps asset.fps original).mapError .timeMapping
    okOr (.unrepresentableSplit original.id at_) (findSourceBoundary original.sourceRange offset effective doc.fps)
  | _ => okOr .timeOverflow (checkedAdd original.sourceRange.start offset)

/-- The clip up to the split. -/
def splitLeft (original : Clip) (boundary offset : TimeCode) : Clip :=
  { original with
    sourceRange := { original.sourceRange with stop := boundary }
    content := match original.content with
      | .title title =>
        .title { title with fadeInFrames := min title.fadeInFrames offset, fadeOutFrames := 0 }
      | content => content
    audioFadeOutFrames := 0 }

/-- The clip from the split on, before its automation is rebased. -/
def splitRight (original : Clip) (id : ClipId) (boundary at_ stop : TimeCode) : Except OpError Clip := do
  let content ← match original.content with
    | .title title => do
      let rightDuration ← okOr .timeOverflow (checkedSub stop at_)
      .ok (.title
        { title with
          fadeInFrames := 0
          fadeOutFrames := min title.fadeOutFrames rightDuration })
    | content => .ok content
  .ok
    { original with
      id := id
      sourceRange := { original.sourceRange with start := boundary }
      content := content
      timelineStart := at_
      transitionIn := none
      audioFadeInFrames := 0 }

/-- The clips of the track when the clip at the index is replaced by the two. -/
def Document.splitClips (doc : Document) (clips : List Clip) (clipIndex : ℕ) (left right : Clip) :
    Except OpError (List Clip) := do
  let sorted := (clips.set clipIndex left ++ [right]).insertionSort Clip.le
  let leftIndex ← okOr (.missingClip left.id) (sorted.findIdx? fun clip => clip.id = left.id)
  let found ← okOr (.missingClip left.id) sorted[leftIndex]?
  let survived ← doc.surviveClipEdit found 0
  .ok (sorted.set leftIndex survived)

/-- `split_clip`. -/
def splitClip (doc : Document) (clip : ClipId) (at_ : TimeCode) : Except OpError Document := do
  let (trackIndex, clipIndex) ← okOr (.missingClip clip) (findClip clip doc.tracks)
  let track ← okOr (.missingClip clip) doc.tracks[trackIndex]?
  let original ← okOr (.missingClip clip) track.clips[clipIndex]?
  let stop ← doc.clipEnd original
  if at_ ≤ original.timelineStart ∨ stop ≤ at_ then .error (.splitOutsideClip clip at_)
  else
    let offset ← okOr .timeOverflow (checkedSub at_ original.timelineStart)
    let boundary ← doc.splitBoundary original at_ offset
    let newId ← doc.nextClipId
    let right ← splitRight original newId boundary at_ stop
    let right ← doc.surviveClipEdit right offset
    let clips ← doc.splitClips track.clips clipIndex (splitLeft original boundary offset) right
    .ok { doc with tracks := doc.tracks.set trackIndex { track with clips } }

/-- `Operation::apply` of `SplitClip`. -/
def applySplit (checks : Checks) (doc : Document) (clip : ClipId) (at_ : TimeCode) : Except OpError Document := do
  validateDocument checks doc
  let candidate ← splitClip doc clip at_
  let candidate ← candidate.recomputeDuration
  validateDocument checks candidate
  .ok candidate

/-! ## What a split leaves -/

/-- A part of a clip, as far as it decides what is shown: it has its own place, and the enable curve
moves with the place. -/
structure Clip.Part (original part : Clip) (timelineStart : TimeCode) (sourceRange : FrameRange)
    (offset : TimeCode) : Prop where
  asset : part.asset = original.asset
  content : part.content = original.content
  speedPercent : part.speedPercent = original.speedPercent
  timelineStart : part.timelineStart = timelineStart
  sourceRange : part.sourceRange = sourceRange
  enabled : part.enabled = original.enabled
  enabledCurve : part.enabledCurve = original.enabledCurve.map (rebaseClipCurveKeepOutside · offset)

variable {doc after : Document} {original : Clip} {at_ : TimeCode} {clipIndex : ℕ}

theorem findClip_ok {id : ClipId} {tracks : List Track} {trackIndex : ℕ}
    (h : findClip id tracks = some (trackIndex, clipIndex)) :
    ∃ track clip, tracks[trackIndex]? = some track ∧ track.clips[clipIndex]? = some clip ∧ clip.id = id := by
  induction tracks generalizing trackIndex with
  | nil => cases h
  | cons track tracks ih =>
    rw [findClip] at h
    rcases hfind : track.clips.findIdx? fun clip => clip.id = id with _ | index
    · rw [hfind] at h
      obtain ⟨⟨trackIndex, clipIndex⟩, hfound, ⟨⟩⟩ := map_eq_some_iff.mp h
      obtain ⟨other, clip, hother, hclip, hid⟩ := ih hfound
      exact ⟨other, clip, hother, hclip, hid⟩
    · rw [hfind] at h
      obtain ⟨⟩ := h
      obtain ⟨hlt, hid, -⟩ := findIdx?_eq_some_iff_getElem.mp hfind
      exact ⟨track, track.clips[clipIndex], rfl, getElem?_eq_getElem hlt, of_decide_eq_true hid⟩

theorem nextClipId_fresh {id : ClipId} (h : doc.nextClipId = .ok id) : id ∉ doc.clips.map Clip.id := by
  intro hmem
  have hle := le_max?_getD_of_mem (k := 0) hmem
  rw [Document.nextClipId] at h
  split at h
  · obtain rfl := Except.ok.inj h
    omega
  · cases h

theorem surviveClipEdit_ok {clip survived : Clip} {delta : TimeCode}
    (h : doc.surviveClipEdit clip delta = .ok survived) :
    ∃ duration, doc.clipDuration clip = .ok duration ∧
      survived = clampClipAudioFades (rebaseClipAutomation clip delta duration) duration := by
  rw [Document.surviveClipEdit, bind_eq_ok] at h
  obtain ⟨duration, hduration, h⟩ := h
  exact ⟨duration, hduration, (Except.ok.inj h).symm⟩

/-- The two parts are there in the place of the clip, the left one as it survives. -/
theorem splitClips_perm {clips clips' : List Clip} {left right : Clip}
    (hids : (clips.map Clip.id).Nodup) (horiginal : clips[clipIndex]? = some original)
    (hleft : left.id = original.id) (hright : right.id ∉ clips.map Clip.id)
    (h : doc.splitClips clips clipIndex left right = .ok clips') :
    ∃ survived, doc.surviveClipEdit left 0 = .ok survived ∧
      clips'.Perm (survived :: right :: clips.eraseIdx clipIndex) := by
  rw [Document.splitClips] at h
  obtain ⟨leftIndex, hindex, h⟩ := bind_eq_ok.mp h
  obtain ⟨found, hfound, h⟩ := bind_eq_ok.mp h
  obtain ⟨survived, hsurvived, h⟩ := bind_eq_ok.mp h
  obtain rfl := Except.ok.inj h
  rw [okOr_eq_ok] at hindex hfound
  have hperm := perm_insertionSort Clip.le (clips.set clipIndex left ++ [right])
  generalize (clips.set clipIndex left ++ [right]).insertionSort Clip.le = sorted at *
  -- the ids are those of the track and the new one
  obtain ⟨hlt, horiginalEq⟩ := List.getElem?_eq_some_iff.mp horiginal
  have hset : (clips.set clipIndex left).map Clip.id = clips.map Clip.id := by
    have hbound : clipIndex < (clips.map Clip.id).length := by simpa using hlt
    have hid : original.id = (clips.map Clip.id)[clipIndex] := by
      rw [getElem_map, horiginalEq]
    rw [map_set, hleft, hid, set_getElem_self]
  have hnodup : (sorted.map Clip.id).Nodup := by
    rw [(hperm.map Clip.id).nodup_iff, map_append, hset]
    refine nodup_append.mpr ⟨hids, nodup_singleton _, ?_⟩
    intro a ha b hb hab
    obtain rfl := mem_singleton.mp hb
    exact hright (hab ▸ ha)
  have hleftMem : left ∈ sorted := hperm.mem_iff.mpr (mem_append_left _ (mem_set hlt left))
  obtain ⟨hindexLt, hfoundId, -⟩ := findIdx?_eq_some_iff_getElem.mp hindex
  obtain rfl : sorted[leftIndex] = found := by
    rw [getElem?_eq_getElem hindexLt] at hfound
    exact Option.some.inj hfound
  have hfoundLeft : sorted[leftIndex] = left :=
    inj_on_of_nodup_map hnodup (getElem_mem _) hleftMem (of_decide_eq_true hfoundId)
  rw [hfoundLeft] at hsurvived
  refine ⟨survived, hsurvived, (set_perm_cons_eraseIdx hindexLt survived).trans (.cons survived ?_)⟩
  -- both sides are what is left without the left part
  have hsorted := getElem_cons_eraseIdx_perm hindexLt
  rw [hfoundLeft] at hsorted
  have hclips := (set_perm_cons_eraseIdx hlt left).append_right [right]
  have hrest := (hsorted.trans hperm).trans hclips
  exact (Perm.cons_inv hrest).trans (perm_append_singleton right _)

/-- The left part is in its place, the right part is beside it. -/
theorem splitClips_ok {clips clips' : List Clip} {left right : Clip}
    (hids : (clips.map Clip.id).Nodup) (horiginal : clips[clipIndex]? = some original)
    (hleft : left.id = original.id) (hright : right.id ∉ clips.map Clip.id)
    (h : doc.splitClips clips clipIndex left right = .ok clips') :
    ∃ survived, doc.surviveClipEdit left 0 = .ok survived ∧ survived ∈ clips' ∧ right ∈ clips' := by
  obtain ⟨survived, hsurvived, hperm⟩ := splitClips_perm hids horiginal hleft hright h
  refine ⟨survived, hsurvived, hperm.mem_iff.mpr mem_cons_self, hperm.mem_iff.mpr ?_⟩
  exact mem_cons_of_mem survived mem_cons_self

/-- The left part of a media clip. -/
theorem splitLeft_part {boundary offset : TimeCode} {survived : Clip} (hmedia : original.content = .media)
    (h : doc.surviveClipEdit (splitLeft original boundary offset) 0 = .ok survived) :
    original.Part survived original.timelineStart { start := original.sourceRange.start, stop := boundary } 0 := by
  obtain ⟨duration, -, rfl⟩ := surviveClipEdit_ok h
  refine ⟨rfl, ?_, rfl, rfl, rfl, rfl, rfl⟩
  simp [clampClipAudioFades, rebaseClipAutomation, splitLeft, hmedia]

/-- The right part of a media clip; its id is the new one. -/
theorem splitRight_part {boundary offset stop : TimeCode} {newId : ClipId} {right survived : Clip}
    (hmedia : original.content = .media)
    (hright : splitRight original newId boundary at_ stop = .ok right)
    (h : doc.surviveClipEdit right offset = .ok survived) :
    survived.id = newId ∧ original.Part survived at_
      { start := boundary, stop := original.sourceRange.stop } offset := by
  obtain ⟨duration, -, rfl⟩ := surviveClipEdit_ok h
  simp only [splitRight, hmedia, ok_bind, Except.ok.injEq] at hright
  subst hright
  refine ⟨rfl, rfl, ?_, rfl, rfl, rfl, rfl, rfl⟩
  simp [clampClipAudioFades, rebaseClipAutomation, hmedia]

/-- The parts of a media clip that is split at a frame, on its track. -/
structure SplitOf (doc after : Document) (track : Track) (original : Clip)
    (at_ stop offset boundary : TimeCode) : Prop where
  fps : after.fps = doc.fps
  mediaPool : after.mediaPool = doc.mediaPool
  clipEnd : doc.clipEnd original = .ok stop
  inside : original.timelineStart < at_ ∧ at_ < stop
  offset_eq : offset.toInt = at_.toInt - original.timelineStart.toInt
  boundary_maps : ∃ asset effectiveFps, doc.asset original.asset = some asset ∧
    clipEffectiveFps asset.fps original = .ok effectiveFps ∧
      mapSourceRangeToProject original.sourceRange.start boundary effectiveFps doc.fps = .ok offset
  parts : ∃ clips, { track with clips } ∈ after.tracks ∧ (∃ left ∈ clips, original.Part left original.timelineStart
      { start := original.sourceRange.start, stop := boundary } 0) ∧
    ∃ right ∈ clips, original.Part right at_
      { start := boundary, stop := original.sourceRange.stop } offset

theorem splitBoundary_ok {offset boundary : TimeCode} (hmedia : original.content = .media)
    (h : doc.splitBoundary original at_ offset = .ok boundary) :
    ∃ asset effectiveFps, doc.asset original.asset = some asset ∧
      clipEffectiveFps asset.fps original = .ok effectiveFps ∧
        mapSourceRangeToProject original.sourceRange.start boundary effectiveFps doc.fps = .ok offset := by
  simp only [Document.splitBoundary, hmedia, bind_eq_ok, okOr_eq_ok, mapError_eq_ok] at h
  obtain ⟨asset, hasset, effectiveFps, hrate, hfound⟩ := h
  exact ⟨asset, effectiveFps, hasset, hrate, findSourceBoundary_ok hfound⟩

theorem splitClip_ok (hfits : doc.Fits) {track : Track} (htrack : track ∈ doc.tracks)
    (horiginal : original ∈ track.clips) (hmedia : original.content = .media)
    (h : splitClip doc original.id at_ = .ok after) :
    ∃ stop offset boundary, SplitOf doc after track original at_ stop offset boundary := by
  rw [splitClip, bind_eq_ok] at h
  obtain ⟨⟨trackIndex, clipIndex⟩, hfound, h⟩ := h
  obtain ⟨found, hfoundTrack, h⟩ := bind_eq_ok.mp h
  obtain ⟨clip, hclip, h⟩ := bind_eq_ok.mp h
  obtain ⟨stop, hstop, h⟩ := bind_eq_ok.mp h
  rw [unless_eq_ok, bind_eq_ok] at h
  obtain ⟨hinside, offset, hoffset, h⟩ := h
  obtain ⟨boundary, hboundary, h⟩ := bind_eq_ok.mp h
  obtain ⟨newId, hnewId, h⟩ := bind_eq_ok.mp h
  obtain ⟨right, hright, h⟩ := bind_eq_ok.mp h
  obtain ⟨survived, hsurvived, h⟩ := bind_eq_ok.mp h
  obtain ⟨clips, hclips, h⟩ := bind_eq_ok.mp h
  obtain rfl := Except.ok.inj h
  rw [okOr_eq_ok] at hfound hfoundTrack hclip hoffset
  -- the clip that is found is the clip, on its track
  obtain ⟨foundTrack, foundClip, hfoundAt, hclipAt, hid⟩ := findClip_ok hfound
  obtain rfl : foundTrack = found := Option.some.inj (hfoundAt.symm.trans hfoundTrack)
  obtain rfl : foundClip = clip := Option.some.inj (hclipAt.symm.trans hclip)
  have hfoundMem := mem_of_getElem? hfoundTrack
  have hclipMem := mem_of_getElem? hclip
  obtain rfl := hfits.eq_of_id (mem_clips hfoundMem hclipMem) (mem_clips htrack horiginal) hid
  obtain rfl := hfits.eq_track hfoundMem htrack hclipMem horiginal
  obtain ⟨hid', hrightPart⟩ := splitRight_part hmedia hright hsurvived
  have hfresh : survived.id ∉ foundTrack.clips.map Clip.id := by
    intro hmem
    obtain ⟨other, hother, heq⟩ := mem_map.mp hmem
    refine nextClipId_fresh hnewId (mem_map.mpr ⟨other, mem_clips htrack hother, ?_⟩)
    rw [heq, hid']
  have hids : (foundTrack.clips.map Clip.id).Nodup := hfits.trackClipIds htrack
  have hleftId : (splitLeft foundClip boundary offset).id = foundClip.id := rfl
  obtain ⟨left, hleft, hleftMem, hrightMem⟩ := splitClips_ok hids hclip hleftId hfresh hclips
  rw [not_or, Int64.not_le, Int64.not_le] at hinside
  rw [checkedSub_eq_some] at hoffset
  refine ⟨stop, offset, boundary, rfl, rfl, hstop, hinside, hoffset, ?_, clips, ?_, ?_, ?_⟩
  · exact splitBoundary_ok hmedia hboundary
  · exact mem_set (List.getElem?_eq_some_iff.mp hfoundTrack).1 _
  · exact ⟨left, hleftMem, splitLeft_part hmedia hleft⟩
  · exact ⟨survived, hrightMem, hrightPart⟩

theorem recomputeDuration_ok (h : doc.recomputeDuration = .ok after) :
    after.tracks = doc.tracks ∧ after.fps = doc.fps ∧ after.mediaPool = doc.mediaPool := by
  rw [Document.recomputeDuration, bind_eq_ok] at h
  obtain ⟨duration, -, h⟩ := h
  obtain rfl := Except.ok.inj h
  exact ⟨rfl, rfl, rfl⟩

/-- A split that is accepted, between two valid documents. -/
theorem applySplit_ok {checks : Checks} {track : Track} (htrack : track ∈ doc.tracks)
    (horiginal : original ∈ track.clips) (hmedia : original.content = .media)
    (h : applySplit checks doc original.id at_ = .ok after) :
    doc.Fits ∧ after.Fits ∧ ∃ stop offset boundary, SplitOf doc after track original at_ stop offset boundary := by
  rw [applySplit, bind_eq_ok] at h
  obtain ⟨⟨⟩, hvalid, h⟩ := h
  obtain ⟨candidate, hsplit, h⟩ := bind_eq_ok.mp h
  obtain ⟨recomputed, hrecomputed, h⟩ := bind_eq_ok.mp h
  obtain ⟨⟨⟩, hvalid', h⟩ := bind_eq_ok.mp h
  obtain rfl := Except.ok.inj h
  have hfits := validateDocument_ok hvalid
  obtain ⟨htracks, hfps, hpool⟩ := recomputeDuration_ok hrecomputed
  obtain ⟨stop, offset, boundary, hparts⟩ := splitClip_ok hfits htrack horiginal hmedia hsplit
  refine ⟨hfits, validateDocument_ok hvalid', stop, offset, boundary, ?_⟩
  exact
    { hparts with
      fps := hfps.trans hparts.fps
      mediaPool := hpool.trans hparts.mediaPool
      parts := by
        rw [htracks]
        exact hparts.parts }

end Kinewright.Model
