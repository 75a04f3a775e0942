import Kinewright.Model.ClipData
import Kinewright.Edits.Acceptance
import Kinewright.Edits.Locality

/-!
# Clips in other places

`operation.rs`: a trim, a roll and a slide give a clip another place and another source range. Where the clip then ends
follows from the mapped boundaries of the range, and the content has to fit the new range.
-/

namespace Kinewright.Edits

open Fallible Model Except

variable {doc after : Document} {found : Track} {clips : List Clip} {clip clip' : Clip} {rate : Rational}
  {start duration duration' stop : TimeCode} {source : FrameRange} {content : ClipContent}

/-! ## The rate of a clip -/

/-- The rate that the source range of a clip is in. -/
def clipRate (doc : Document) (clip : Clip) : Except OpError Rational :=
  match clip.content with
  | .media => do
    let media ← okOr (.missingAsset clip.asset) (doc.asset clip.asset)
    (clipEffectiveFps media.fps clip).mapError .timeMapping
  | _ => .ok doc.fps

theorem clipRate_media (hmedia : clip.content = .media) : clipRate doc clip = .ok rate ↔
    ∃ media, doc.asset clip.asset = some media ∧ clipEffectiveFps media.fps clip = .ok rate := by
  simp [clipRate, hmedia, bind_eq_ok, mapError_eq_ok]

theorem clipRate_span (hspan : clip.content ≠ .media) : clipRate doc clip = .ok rate ↔ rate = doc.fps := by
  rw [clipRate]
  split
  · exact absurd ‹_› hspan
  · rw [ok.injEq, eq_comm]

/-- The duration of a clip is what its source range is mapped to. -/
theorem clipDuration_mapped (hfps : doc.fps.IsValid) (hrate : clipRate doc clip = .ok rate)
    (hrange : 0 ≤ clip.sourceRange.start.toInt ∧ clip.sourceRange.start.toInt < clip.sourceRange.stop.toInt) :
    doc.clipDuration clip = .ok duration ↔
      mapSourceRangeToProject clip.sourceRange.start clip.sourceRange.stop rate doc.fps = .ok duration := by
  by_cases hmedia : clip.content = .media
  · obtain ⟨media, hasset, heffective⟩ := (clipRate_media hmedia).mp hrate
    rw [clipDuration_media hmedia]
    constructor
    · rintro ⟨_, _, hasset', heffective', hmapped⟩
      obtain rfl := Option.some.inj (hasset.symm.trans hasset')
      obtain rfl := ok.inj (heffective.symm.trans heffective')
      exact hmapped
    · exact fun hmapped => ⟨media, rate, hasset, heffective, hmapped⟩
  · obtain rfl := (clipRate_span hmedia).mp hrate
    rw [clipDuration_span hmedia, mapSourceRange_eq_ok, and_iff_right hrange]
    constructor
    · exact fun hlength => ⟨_, _, mapFrames_same hfps hrange.1, mapFrames_same hfps (by omega), hlength⟩
    · rintro ⟨_, _, hstart, hstop, hlength⟩
      obtain rfl := ok.inj ((mapFrames_same hfps hrange.1).symm.trans hstart)
      obtain rfl := ok.inj ((mapFrames_same hfps (by omega)).symm.trans hstop)
      exact hlength

/-! ## The content of a clip -/

/-- A range of frames. -/
def Ranges (source : FrameRange) : Prop := 0 ≤ source.start.toInt ∧ source.start.toInt < source.stop.toInt

theorem validateTitleRange_eq_ok : validateTitleRange source = .ok () ↔ Ranges source := by
  rw [Ranges, validateTitleRange, unless_eq_ok, not_or, Int64.not_le, Int64.lt_iff_toInt_lt, Int.not_lt, and_iff_left rfl]

theorem validateSourceRange_eq_ok {media : MediaAsset} : validateSourceRange media source = .ok () ↔
    Ranges source ∧ source.stop ≤ media.duration := by
  rw [Ranges, validateSourceRange, unless_eq_ok, unless_eq_ok, not_or, Int64.not_le, Int64.not_lt, Int64.lt_iff_toInt_lt,
    Int.not_lt, and_iff_left rfl]

/-- The fades of a title are within its length. -/
def FadesWithin (duration : TimeCode) : ClipContent → Prop
  | .title title => (0 ≤ title.fadeInFrames.toInt ∧ 0 ≤ title.fadeOutFrames.toInt) ∧
      title.fadeInFrames ≤ duration ∧ title.fadeOutFrames ≤ duration
  | _ => True

/-- What the content of a clip needs of its range: media has to have its frames, and a title time for its fades. -/
def ContentWithin (doc : Document) (clip : Clip) (duration : TimeCode) : Prop :=
  Ranges clip.sourceRange ∧
    (clip.content = .media → ∀ media ∈ doc.asset clip.asset, clip.sourceRange.stop ≤ media.duration) ∧
      FadesWithin duration clip.content

/-- Contents that differ in the fades of a title, or not at all. -/
theorem withoutFades_cases {content' : ClipContent} (h : withoutFades content' = withoutFades content) :
    (∃ title fadeIn fadeOut, content = .title title ∧
      content' = .title { title with fadeInFrames := fadeIn, fadeOutFrames := fadeOut }) ∨
    (content' = content ∧ ∀ title, content ≠ .title title) := by
  cases content with
  | title title =>
    cases content' with
    | title title' =>
      refine .inl ⟨title, title'.fadeInFrames, title'.fadeOutFrames, rfl, ?_⟩
      rw [withoutFades, withoutFades, ClipContent.title.injEq, Title.mk.injEq] at h
      obtain ⟨htext, hsize, hcolor, hposition, hscrim, -, -, hpreset⟩ := h
      rw [← htext, ← hsize, ← hcolor, ← hposition, ← hscrim, ← hpreset]
    | _ => cases h
  | _ =>
    cases content' with
    | title title' => cases h
    | _ => exact .inr ⟨h, by rintro _ ⟨⟩⟩

theorem validateSpan_eq_ok {check : Except OpError Unit} :
    validateSpan found clip check = .ok () ↔ found.kind = .video ∧ check = .ok () := by
  rw [validateSpan, unless_eq_ok, not_not]

theorem validateContent_media (hcontent : clip.content = .media) : validateContent coreChecks doc found clip = .ok () ↔
    ∃ media, doc.asset clip.asset = some media ∧ validateTrackCompatibility media found = .ok () ∧
      (Ranges clip.sourceRange ∧ clip.sourceRange.stop ≤ media.duration) ∧ validateClipSpeed clip.speedPercent = .ok () := by
  simp only [validateContent, hcontent, bind_eq_ok, okOr_eq_ok]
  refine exists_congr fun media => and_congr_right fun _ => ?_
  constructor
  · rintro ⟨⟨⟩, hcompatible, ⟨⟩, hrange, hspeed⟩
    exact ⟨hcompatible, validateSourceRange_eq_ok.mp hrange, hspeed⟩
  · rintro ⟨hcompatible, hrange, hspeed⟩
    exact ⟨(), hcompatible, (), validateSourceRange_eq_ok.mpr hrange, hspeed⟩

theorem validateContent_title {title : Title} (hcontent : clip.content = .title title)
    (hduration : doc.clipDuration clip = .ok duration) : validateContent coreChecks doc found clip = .ok () ↔
      found.kind = .video ∧ Ranges clip.sourceRange ∧ validateTitle clip.id title duration = .ok () := by
  rw [validateContent, hcontent]
  rw [validateSpan_eq_ok, then_eq_ok, validateTitleRange_eq_ok, hduration, ok_bind]
  rfl

theorem validateContent_freeze {frame : TimeCode} (hcontent : clip.content = .freeze frame) :
    validateContent coreChecks doc found clip = .ok () ↔ found.kind = .video ∧ Ranges clip.sourceRange ∧
      ∃ media, doc.asset clip.asset = some media ∧ validateTrackCompatibility media found = .ok () ∧
        validateFreezeSourceFrame media frame = .ok () := by
  simp only [validateContent, hcontent, validateSpan_eq_ok, bind_eq_ok, okOr_eq_ok]
  refine and_congr_right fun _ => ?_
  constructor
  · rintro ⟨media, hmedia, ⟨⟩, hcompatible, ⟨⟩, hframe, hrange⟩
    exact ⟨validateTitleRange_eq_ok.mp hrange, media, hmedia, hcompatible, hframe⟩
  · rintro ⟨hrange, media, hmedia, hcompatible, hframe⟩
    exact ⟨media, hmedia, (), hcompatible, (), hframe, validateTitleRange_eq_ok.mpr hrange⟩

theorem validateContent_span (hcontent : clip.content = .adjustment ∨ ∃ color, clip.content = .solid color) :
    validateContent coreChecks doc found clip = .ok () ↔ found.kind = .video ∧ Ranges clip.sourceRange := by
  rcases hcontent with hcontent | ⟨color, hcontent⟩
  all_goals
    rw [validateContent, hcontent]
    rw [validateSpan_eq_ok, validateTitleRange_eq_ok]

/-- The range of a valid clip. -/
theorem ranges_of_validateContent (h : validateContent coreChecks doc found clip = .ok ()) : Ranges clip.sourceRange := by
  cases hcontent : clip.content with
  | media =>
    obtain ⟨media, -, -, ⟨hrange, -⟩, -⟩ := (validateContent_media hcontent).mp h
    exact hrange
  | title title =>
    rw [validateContent, hcontent] at h
    rw [validateSpan_eq_ok, then_eq_ok, validateTitleRange_eq_ok] at h
    exact h.2.1
  | freeze frame => exact ((validateContent_freeze hcontent).mp h).2.1
  | adjustment => exact ((validateContent_span (.inl hcontent)).mp h).2
  | solid color => exact ((validateContent_span (.inr ⟨color, hcontent⟩)).mp h).2

/-- What is not checked of the range of a clip stays valid in another place. -/
theorem validateContent_placed (h : validateContent coreChecks doc found clip = .ok ())
    (hold : doc.clipDuration clip = .ok duration) (hsame : withoutFades content = withoutFades clip.content)
    (hduration : doc.clipDuration (clip.placed start source content) = .ok duration') :
    validateContent coreChecks doc found (clip.placed start source content) = .ok () ↔
      ContentWithin doc (clip.placed start source content) duration' := by
  rcases withoutFades_cases hsame with ⟨title, fadeIn, fadeOut, htitle, rfl⟩ | ⟨rfl, hother⟩
  · obtain ⟨hvideo, -, hvalid⟩ := (validateContent_title htitle hold).mp h
    rw [validateContent_title rfl hduration, and_iff_right hvideo]
    refine and_congr_right fun _ => ?_
    exact (validateTitle_fades hvalid fadeIn fadeOut).trans ⟨fun hfades => ⟨nofun, hfades⟩, fun hfades => hfades.2⟩
  · cases hcontent : clip.content with
    | media =>
      obtain ⟨media, hmedia, hcompatible, -, hspeed⟩ := (validateContent_media hcontent).mp h
      rw [validateContent_media (by exact rfl)]
      constructor
      · rintro ⟨media', hmedia', -, ⟨hrange, hstop⟩, -⟩
        obtain rfl := Option.some.inj (hmedia.symm.trans hmedia')
        exact ⟨hrange, fun _ media' hmem => Option.some.inj (hmedia.symm.trans hmem) ▸ hstop, trivial⟩
      · rintro ⟨hrange, hstop, -⟩
        exact ⟨media, hmedia, hcompatible, ⟨hrange, hstop rfl media hmedia⟩, hspeed⟩
    | title title => exact absurd hcontent (hother title)
    | freeze frame =>
      obtain ⟨hvideo, -, hmedia⟩ := (validateContent_freeze hcontent).mp h
      have hplaced : (clip.placed start source (.freeze frame)).content = .freeze frame := rfl
      rw [validateContent_freeze hplaced]
      exact ⟨fun h => ⟨h.2.1, nofun, trivial⟩, fun h => ⟨hvideo, h.1, hmedia⟩⟩
    | adjustment =>
      rw [validateContent_span (.inl rfl), and_iff_right ((validateContent_span (.inl hcontent)).mp h).1]
      exact ⟨fun h => ⟨h, nofun, trivial⟩, fun h => h.1⟩
    | solid color =>
      rw [validateContent_span (.inr ⟨color, rfl⟩), and_iff_right ((validateContent_span (.inr ⟨color, hcontent⟩)).mp h).1]
      exact ⟨fun h => ⟨h, nofun, trivial⟩, fun h => h.1⟩

/-- The content of a valid clip has what it needs of the range. -/
theorem contentWithin_of_clipValid (h : ClipValid doc found clip duration stop) : ContentWithin doc clip duration := by
  have hplaced : clip.placed clip.timelineStart clip.sourceRange clip.content = clip := rfl
  have hcontent := validateContent_placed h.content h.duration_eq rfl (hplaced.symm ▸ h.duration_eq)
  exact hcontent.mp h.content

/-! ## The boundaries of a valid clip -/

/-- The boundaries of the source range, on the frames of the project. -/
structure Mapped (doc : Document) (clip : Clip) (rate : Rational) (first last : TimeCode) : Prop where
  rate_eq : clipRate doc clip = .ok rate
  first_eq : mapFrames clip.sourceRange.start rate doc.fps = .ok first
  last_eq : mapFrames clip.sourceRange.stop rate doc.fps = .ok last

/-- The boundaries of a valid clip are mapped, and its duration is between them. -/
theorem exists_mapped (hfps : doc.fps.IsValid) (h : ClipValid doc found clip duration stop) :
    ∃ rate first last, Mapped doc clip rate first last ∧ duration.toInt = last.toInt - first.toInt := by
  have hrange := ranges_of_validateContent h.content
  obtain ⟨rate, hrate⟩ : ∃ rate, clipRate doc clip = .ok rate := by
    by_cases hmedia : clip.content = .media
    · obtain ⟨media, effective, hasset, heffective, -⟩ := (clipDuration_media hmedia).mp h.duration_eq
      exact ⟨effective, (clipRate_media hmedia).mpr ⟨media, hasset, heffective⟩⟩
    · exact ⟨doc.fps, (clipRate_span hmedia).mpr rfl⟩
  obtain ⟨-, first, last, hfirst, hlast, hlength⟩ :=
    mapSourceRange_eq_ok.mp ((clipDuration_mapped hfps hrate hrange).mp h.duration_eq)
  exact ⟨rate, first, last, ⟨hrate, hfirst, hlast⟩, hlength⟩

/-- A clip lasts between its mapped boundaries. -/
theorem Mapped.clipDuration {first last : TimeCode} (h : Mapped doc clip rate first last) (hfps : doc.fps.IsValid)
    (hrange : Ranges clip.sourceRange) :
    doc.clipDuration clip = .ok duration ↔ duration.toInt = last.toInt - first.toInt := by
  rw [clipDuration_mapped hfps h.rate_eq hrange, mapSourceRange_eq_ok, and_iff_right (by exact hrange)]
  constructor
  · rintro ⟨_, _, hfirst, hlast, hlength⟩
    obtain rfl := ok.inj (h.first_eq.symm.trans hfirst)
    obtain rfl := ok.inj (h.last_eq.symm.trans hlast)
    exact hlength
  · exact fun hlength => ⟨first, last, h.first_eq, h.last_eq, hlength⟩

/-- The rate of a clip depends on its asset, its speed and on whether it is of media. -/
theorem clipRate_congr (hasset : clip'.asset = clip.asset) (hspeed : clip'.speedPercent = clip.speedPercent)
    (hkind : clip'.content.isMedia = clip.content.isMedia) : clipRate doc clip' = clipRate doc clip := by
  have hmedia : clip'.content = .media ↔ clip.content = .media := by
    rw [← decide_eq_decide]
    exact hkind
  by_cases hcontent : clip.content = .media
  · simp [clipRate, hcontent, hmedia.mpr hcontent, hasset, clipEffectiveFps, hspeed]
  · have hspan : clipRate doc clip = .ok doc.fps := (clipRate_span hcontent).mpr rfl
    rw [hspan, (clipRate_span (mt hmedia.mp hcontent)).mpr rfl]

theorem clipRate_sameFootage (h : SameFootage doc after) (clip : Clip) : clipRate after clip = clipRate doc clip := by
  rw [clipRate, clipRate, h.fps]
  rcases h.asset clip.asset with ⟨hnone, hnone'⟩ | ⟨media, media', hsome, hsome', -, -, hfps, -⟩
  · rw [hnone, hnone']
  · rw [hsome, hsome', okOr_some, okOr_some, ok_bind, ok_bind, hfps]

theorem Mapped.of_sameFootage {first last : TimeCode} (hsame : SameFootage doc after)
    (h : Mapped after clip rate first last) : Mapped doc clip rate first last where
  rate_eq := (clipRate_sameFootage hsame clip).symm.trans h.rate_eq
  first_eq := hsame.fps ▸ h.first_eq
  last_eq := hsame.fps ▸ h.last_eq

/-- Clips of one rate and one range have the same mapped boundaries. -/
theorem Mapped.unique {first last first' last' : TimeCode} {rate' : Rational} (h : Mapped doc clip rate first last)
    (h' : Mapped doc clip' rate' first' last') (hrate : clipRate doc clip' = clipRate doc clip)
    (hrange : clip'.sourceRange = clip.sourceRange) : rate' = rate ∧ first' = first ∧ last' = last := by
  obtain rfl := ok.inj (h'.rate_eq.symm.trans (hrate.trans h.rate_eq))
  have hfirst := h'.first_eq
  have hlast := h'.last_eq
  rw [hrange] at hfirst hlast
  exact ⟨rfl, ok.inj (hfirst.symm.trans h.first_eq), ok.inj (hlast.symm.trans h.last_eq)⟩

/-! ## Accepted edits of a track -/

variable {operation : Operation} {edited : Draft}

theorem recomputeDuration_exchanged {next : Document} (h : next.recomputeDuration = .ok after) :
    ∃ mix duration, after = next.exchanged next.tracks mix duration := by
  rw [Document.recomputeDuration, bind_eq_ok] at h
  obtain ⟨duration, -, h⟩ := h
  obtain rfl := ok.inj h
  exact ⟨_, duration, rfl⟩

theorem apart_of_sameFootage (hsame : SameFootage doc after) (h : Apart doc clips) : Apart after clips :=
  h.imp fun {clip _} hnext stop hstop => hnext stop ((hsame.clipEnd clip).symm.trans hstop)

/-- What an accepted operation leaves on the track that it changes. -/
structure Left (doc after : Document) (found : Track) (clips : List Clip) : Prop where
  footage : SameFootage doc after
  tracks : after.tracks = (withClips doc found.id clips).tracks
  apart : Apart doc clips
  valid : ∀ clip ∈ clips, ∃ duration stop, ClipValid doc found clip duration stop

theorem clipValid_of_setClips (h : ClipValid doc (setClips clips found) clip duration stop) :
    ClipValid doc found clip duration stop where
  start := h.start
  content := h.content
  speed := h.speed
  duration_eq := h.duration_eq
  pos := h.pos
  stop_eq := h.stop_eq
  data := h.data
  enabled := h.enabled

/-- The checks of a clip read the media and not the other clips. -/
theorem clipValid_of_sameFootage (hsame : SameFootage doc after) (h : ClipValid after found clip duration stop) :
    ClipValid doc found clip duration stop := by
  have hclip := validateClip_eq_ok.mpr ⟨duration, h⟩
  rw [hsame.validateClip] at hclip
  obtain ⟨duration', hvalid⟩ := validateClip_eq_ok.mp hclip
  obtain rfl : duration' = duration := by
    have hduration := h.duration_eq
    rw [hsame.clipDuration, hvalid.duration_eq] at hduration
    exact ok.inj hduration
  exact hvalid

theorem Applied.left (h : Applied operation doc after edited) (htrack : trackOf doc found.id = .ok found)
    (hedited : edited.doc = withClips doc found.id clips) : Left doc after found clips := by
  obtain ⟨mix, duration, hafter⟩ := recomputeDuration_exchanged h.recomputed
  have hsame : SameFootage doc after := by
    rw [hafter, hedited]
    exact sameFootage_exchanged doc _ mix duration
  have htracks : after.tracks = (withClips doc found.id clips).tracks := by
    rw [h.tracks, hedited]
  have hmem : setClips clips found ∈ after.tracks := by
    rw [htracks]
    exact mem_of_trackOf (trackOf_withClips htrack)
  refine ⟨hsame, htracks, ?_, fun clip hclip => ?_⟩
  · exact apart_of_sameFootage hsame.symm (h.after.fits.apart _ hmem)
  · obtain ⟨duration, stop, hvalid⟩ := h.after.clipValid hmem hclip
    exact ⟨duration, stop, clipValid_of_setClips (clipValid_of_sameFootage hsame hvalid)⟩

namespace Left

variable (h : Left doc after found clips) (htrack : trackOf doc found.id = .ok found)

include h htrack

theorem trackOf_eq : trackOf after found.id = .ok (setClips clips found) := by
  rw [trackOf, h.tracks]
  exact trackOf_withClips htrack

/-- A clip that is left is the one of its id. -/
theorem clip_eq (hvalid : after.Valid) (hclip : clip ∈ clips) : after.clip clip.id = some clip :=
  hvalid.fits.clip_eq_some (mem_clips (mem_of_trackOf (h.trackOf_eq htrack)) hclip)

/-- The other clips are what they were. -/
theorem others {ids : List ClipId}
    (hclips : clips.filter (fun clip => clip.id ∉ ids) = found.clips.filter fun clip => clip.id ∉ ids) :
    otherClips ids after = otherClips ids doc := by
  have hothers : otherClips ids after = otherClips ids (withClips doc found.id clips) := by
    rw [otherClips, otherClips, h.tracks]
  rw [hothers]
  exact otherClips_withClips htrack hclips

end Left

/-- An edit of a track that leaves valid clips apart is accepted. -/
theorem exists_apply_withClips (edit : Document → Except OpError Document)
    (hedits : ∀ draft : Draft, operation.edit draft = draft.keep edit) (hvalid : doc.Valid)
    (htrack : trackOf doc found.id = .ok found) (hedit : edit doc = .ok (withClips doc found.id clips))
    (hclips : ∀ clip ∈ clips, ∃ duration stop, ClipValid doc found clip duration stop) (hapart : Apart doc clips)
    (hids : clips.map Clip.id = found.clips.map Clip.id) :
    ∃ after, operation.apply doc = .ok after ∧ Left doc after found clips := by
  have hdraft : operation.draft doc = .ok { doc := withClips doc found.id clips, events := [] } := by
    rw [Operation.draft, hedits]
    exact keep_of_ok hedit
  have hnodup : (clips.map Clip.id).Nodup := by
    rw [hids]
    exact hvalid.fits.trackClipIds (mem_of_trackOf htrack)
  have htracks := tracksValid_withClips hvalid htrack hclips hapart hnodup fun id hid => .inl (hids ▸ hid)
  obtain ⟨duration, -, happly⟩ := exists_apply hvalid hdraft rfl htracks
    ((ids_withClips doc found.id clips).symm ▸ hvalid.mixFits)
  obtain ⟨edited, happlied⟩ := applied_of_apply happly
  obtain rfl := ok.inj (hdraft.symm.trans happlied.edits)
  exact ⟨_, happly, happlied.left htrack rfl⟩

/-! ## Exchanged clips -/

variable {id : ClipId} {new : Clip}

theorem ids_swapped (hid : new.id = id) (clips : List Clip) :
    (clips.map (swapped id new)).map Clip.id = clips.map Clip.id := by
  rw [List.map_map]
  refine List.map_congr_left fun clip _ => ?_
  by_cases hclip : clip.id = id
  · simp [swapped, hclip, hid]
  · simp [swapped, hclip]

theorem swapped_swapped {first second : Clip} (hid : first.id = id) (clips : List Clip) :
    (clips.map (swapped id first)).map (swapped id second) = clips.map (swapped id second) := by
  rw [List.map_map]
  refine List.map_congr_left fun clip _ => ?_
  by_cases hclip : clip.id = id
  · simp [swapped, hclip, hid]
  · simp [swapped, hclip]

/-- Clips stay apart if one of them is exchanged for one in the same place. -/
theorem apart_swapped (h : Apart doc clips) (hnew : ∀ clip ∈ clips, clip.id = id →
    new.timelineStart = clip.timelineStart ∧ doc.clipEnd new = doc.clipEnd clip) :
    Apart doc (clips.map (swapped id new)) := by
  have hplace : ∀ clip ∈ clips, (swapped id new clip).timelineStart = clip.timelineStart ∧
      doc.clipEnd (swapped id new clip) = doc.clipEnd clip := by
    intro clip hclip
    rw [swapped]
    split
    · rename_i hid
      exact hnew clip hclip hid
    · exact ⟨rfl, rfl⟩
  refine List.pairwise_map.mpr (h.imp_of_mem fun {clip next} hclip hnext hapart stop hstop => ?_)
  rw [(hplace clip hclip).2] at hstop
  rw [(hplace next hnext).1]
  exact hapart stop hstop

/-- An edit that gives a clip its old place back is accepted. -/
theorem exists_apply_back (edit : Document → Except OpError Document)
    (hedits : ∀ draft : Draft, operation.edit draft = draft.keep edit) (hvalid : doc.Valid) (hafter : after.Valid)
    (htrack : trackOf doc found.id = .ok found) (hclip : clip ∈ found.clips) (hid : clip'.id = clip.id)
    (hleft : Left doc after found (found.clips.map (swapped clip.id clip'))) (hnew : new.id = clip.id)
    (hfits : ∃ duration stop, ClipValid after found new duration stop)
    (hplace : new.timelineStart = clip.timelineStart ∧ after.clipEnd new = after.clipEnd clip)
    (hedit : edit after = .ok (withClips after found.id
      ((found.clips.map (swapped clip.id clip')).map (swapped clip.id new)))) :
    ∃ again, operation.apply after = .ok again := by
  have hmem := mem_of_trackOf htrack
  have hback : trackOf after (setClips (found.clips.map (swapped clip.id clip')) found).id
      = .ok (setClips (found.clips.map (swapped clip.id clip')) found) := hleft.trackOf_eq htrack
  rw [swapped_swapped hid] at hedit
  have hclips : ∀ other ∈ found.clips.map (swapped clip.id new), ∃ duration stop,
      ClipValid after (setClips (found.clips.map (swapped clip.id clip')) found) other duration stop := by
    intro other hother
    obtain ⟨original, horiginal, rfl⟩ := List.mem_map.mp hother
    rw [swapped]
    split
    · obtain ⟨duration, stop, hfits⟩ := hfits
      exact ⟨duration, stop, clipValid_setClips hfits⟩
    · obtain ⟨duration, stop, hfits⟩ := hvalid.clipValid hmem horiginal
      exact ⟨duration, stop, clipValid_setClips (clipValid_of_sameFootage hleft.footage.symm hfits)⟩
  have hapart : Apart after (found.clips.map (swapped clip.id new)) := by
    refine apart_swapped (apart_of_sameFootage hleft.footage (hvalid.fits.apart found hmem)) fun other hother heq => ?_
    obtain rfl := hvalid.fits.eq_of_id (mem_clips hmem hother) (mem_clips hmem hclip) heq
    exact hplace
  have hids : (found.clips.map (swapped clip.id new)).map Clip.id
      = (found.clips.map (swapped clip.id clip')).map Clip.id := by
    rw [ids_swapped hnew, ids_swapped hid]
  obtain ⟨again, hagain, -⟩ := exists_apply_withClips edit hedits hafter hback hedit hclips hapart hids
  exact ⟨again, hagain⟩

end Kinewright.Edits
