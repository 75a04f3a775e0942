import Kinewright.Model.Footage

/-!
# The parts of valid clips and tracks

What `validate_document` accepts of a clip, of the clips of a track and of the tracks, part by part: an edit of some
clips is accepted if the parts hold again of what it changed.
-/

namespace Kinewright.Model

open Fallible List

variable {doc : Document} {track : Track} {clip : Clip} {clips : List Clip} {stop : TimeCode}

/-! ## A clip -/

/-- What `validate_document` accepts of a clip by itself. -/
structure ClipValid (doc : Document) (track : Track) (clip : Clip) (duration stop : TimeCode) : Prop where
  start : 0 ≤ clip.timelineStart.toInt
  content : validateContent coreChecks doc track clip = .ok ()
  speed : clip.content.isMedia = false → clip.speedPercent = 100
  duration_eq : doc.clipDuration clip = .ok duration
  pos : 0 < duration.toInt
  stop_eq : stop.toInt = clip.timelineStart.toInt + duration.toInt
  data : validateClipData doc clip duration = .ok ()
  enabled : validateEnabled clip = .ok ()

theorem validateClip_eq_ok : validateClip coreChecks doc track clip = .ok stop ↔
    ∃ duration, ClipValid doc track clip duration stop := by
  have hspeed : ¬ (!clip.content.isMedia && clip.speedPercent != 100) = true ↔
      (clip.content.isMedia = false → clip.speedPercent = 100) := by
    cases clip.content.isMedia <;> simp
  rw [validateClip, unless_eq_ok, bind_eq_ok]
  constructor
  · rintro ⟨hstart, ⟨⟩, hcontent, h⟩
    rw [unless_eq_ok, bind_eq_ok] at h
    obtain ⟨hmedia, duration, hduration, h⟩ := h
    rw [unless_eq_ok, bind_eq_ok] at h
    obtain ⟨hpos, stop', hstop, h⟩ := h
    obtain ⟨⟨⟩, hdata, h⟩ := bind_eq_ok.mp h
    obtain ⟨⟨⟩, henabled, h⟩ := bind_eq_ok.mp h
    obtain rfl := Except.ok.inj h
    refine ⟨duration, by omega, hcontent, hspeed.mp hmedia, hduration, by omega, ?_, hdata, henabled⟩
    exact checkedAdd_eq_some.mp (okOr_eq_ok.mp hstop)
  · rintro ⟨duration, h⟩
    refine ⟨by have := h.start; omega, (), h.content, ?_⟩
    rw [unless_eq_ok, bind_eq_ok]
    refine ⟨hspeed.mpr h.speed, duration, h.duration_eq, ?_⟩
    rw [unless_eq_ok, bind_eq_ok]
    refine ⟨by have := h.pos; omega, stop, okOr_eq_ok.mpr (checkedAdd_eq_some.mpr h.stop_eq), ?_⟩
    exact bind_eq_ok.mpr ⟨(), h.data, bind_eq_ok.mpr ⟨(), h.enabled, rfl⟩⟩

namespace ClipValid

variable {duration : TimeCode} (h : ClipValid doc track clip duration stop)

include h

theorem clipEnd : doc.clipEnd clip = .ok stop := by
  rw [Document.clipEnd, h.duration_eq, ok_bind, okOr_eq_ok, checkedAdd_eq_some]
  exact h.stop_eq

/-- No two effects of the clip have the same id. -/
theorem effectIds : (clip.effects.map Effect.id).Nodup := by
  have hdata := h.data
  rw [validateClipData, bind_eq_ok] at hdata
  obtain ⟨⟨⟩, heffects, -⟩ := hdata
  have hfresh (before : List Effect) (effect : Effect)
      (hcheck : validateClipEffect doc clip duration before effect = .ok ()) :
      effect.id ∉ before.map Effect.id := by
    rw [validateClipEffect, bind_eq_ok] at hcheck
    obtain ⟨⟨⟩, hfresh, -⟩ := hcheck
    exact refuse_eq_ok.mp hfresh
  exact nodup_of_allAfter hfresh (by exact nodup_nil) heffects

end ClipValid

/-! ## The clips of a track -/

/-- The loop over the clips of a track has checked each of them. -/
theorem exists_clipValid_of_validateClips {previous : Option (Clip × TimeCode)} {seen seen' : Seen}
    (h : validateClips coreChecks doc track clips previous seen = .ok seen') :
    ∀ clip ∈ clips, ∃ duration stop, ClipValid doc track clip duration stop := by
  induction clips generalizing previous seen with
  | nil => exact forall_mem_nil _
  | cons clip clips ih =>
    rw [validateClips, unless_eq_ok, bind_eq_ok] at h
    obtain ⟨-, stop, hclip, h⟩ := h
    obtain ⟨⟨⟩, -, h⟩ := bind_eq_ok.mp h
    obtain ⟨duration, hvalid⟩ := validateClip_eq_ok.mp hclip
    exact forall_mem_cons.mpr ⟨⟨duration, stop, hvalid⟩, ih h⟩

theorem exists_clipValid_of_validateTracks {tracks : List Track} {trackIds : List TrackId} {seen seen' : Seen}
    (h : validateTracks coreChecks doc tracks trackIds seen = .ok seen') :
    ∀ track ∈ tracks, ∀ clip ∈ track.clips, ∃ duration stop, ClipValid doc track clip duration stop := by
  induction tracks generalizing trackIds seen with
  | nil => exact forall_mem_nil _
  | cons track tracks ih =>
    rw [validateTracks, unless_eq_ok, bind_eq_ok] at h
    obtain ⟨-, next, hclips, h⟩ := h
    exact forall_mem_cons.mpr ⟨exists_clipValid_of_validateClips hclips, ih h⟩

/-- Every clip of a valid document is valid. -/
theorem Document.Valid.clipValid (h : doc.Valid) (htrack : track ∈ doc.tracks) (hclip : clip ∈ track.clips) :
    ∃ duration stop, ClipValid doc track clip duration stop := by
  obtain ⟨clipIds, htracks⟩ := h.tracks
  exact exists_clipValid_of_validateTracks htracks track htrack clip hclip

/-- The clips before `clips` were valid with the ids seen, and the last one of them is out of the way. -/
theorem validateClips_of_parts (previous : Option (Clip × TimeCode)) (seen : Seen)
    (hclips : ∀ clip ∈ clips, ∃ duration stop, ClipValid doc track clip duration stop)
    (hids : (clips.map Clip.id).Nodup) (hfresh : ∀ clip ∈ clips, clip.id ∉ seen.clipIds)
    (hapart : Apart doc clips)
    (hprevious : ∀ entry ∈ previous, entry.1.timelineStart ≤ entry.2 ∧ ∀ clip ∈ clips, entry.2 ≤ clip.timelineStart) :
    ∃ seen', validateClips coreChecks doc track clips previous seen = .ok seen' := by
  induction clips generalizing previous seen with
  | nil => exact ⟨seen, rfl⟩
  | cons clip clips ih =>
    obtain ⟨⟨duration, stop, hclip⟩, hclips⟩ := forall_mem_cons.mp hclips
    rw [map_cons, nodup_cons] at hids
    obtain ⟨hclipFresh, hfresh⟩ := forall_mem_cons.mp hfresh
    obtain ⟨hnext, hapart⟩ := pairwise_cons.mp hapart
    have hstart : clip.timelineStart ≤ stop := by
      rw [Int64.le_iff_toInt_le, hclip.stop_eq]
      have hpos := hclip.pos
      omega
    have horder : validateOrder track previous clip = .ok () := by
      cases previous with
      | none => rfl
      | some entry =>
        obtain ⟨hle, hbefore⟩ := hprevious entry rfl
        have hbefore := hbefore clip mem_cons_self
        rw [validateOrder, unless_eq_ok, unless_eq_ok, Int64.not_lt, Int64.not_lt]
        exact ⟨Int64.le_trans hle hbefore, hbefore, rfl⟩
    have hfreshNext : ∀ other ∈ clips, other.id ∉ clip.id :: seen.clipIds := by
      intro other hother hmem
      rcases mem_cons.mp hmem with heq | hmem
      · exact hids.1 (mem_map.mpr ⟨other, hother, heq⟩)
      · exact hfresh other hother hmem
    have hbefore : ∀ entry ∈ some (clip, stop), entry.1.timelineStart ≤ entry.2 ∧
        ∀ other ∈ clips, entry.2 ≤ other.timelineStart := by
      intro entry hentry
      obtain rfl := Option.some.inj hentry
      exact ⟨hstart, fun other hother => hnext other hother stop hclip.clipEnd⟩
    obtain ⟨seen', hrest⟩ := ih (some (clip, stop))
      { clipIds := clip.id :: seen.clipIds
        expectedDuration := if seen.expectedDuration < stop then stop else seen.expectedDuration }
      hclips hids.2 hfreshNext hapart hbefore
    refine ⟨seen', ?_⟩
    rw [validateClips, unless_eq_ok]
    refine ⟨hclipFresh, bind_eq_ok.mpr ⟨stop, validateClip_eq_ok.mpr ⟨duration, hclip⟩, ?_⟩⟩
    exact bind_eq_ok.mpr ⟨(), horder, hrest⟩

/-! ## The tracks -/

/-- Tracks of valid clips that are apart, with each id once, are accepted. -/
theorem validateTracks_of_parts {tracks : List Track} (trackIds : List TrackId) (seen : Seen)
    (hclips : ∀ track ∈ tracks, ∀ clip ∈ track.clips, ∃ duration stop, ClipValid doc track clip duration stop)
    (hapart : ∀ track ∈ tracks, Apart doc track.clips) (htracks : (tracks.map Track.id).Nodup)
    (hfreshTracks : ∀ track ∈ tracks, track.id ∉ trackIds)
    (hids : ((tracks.flatMap Track.clips).map Clip.id).Nodup)
    (hfresh : ∀ clip ∈ tracks.flatMap Track.clips, clip.id ∉ seen.clipIds) :
    ∃ seen', validateTracks coreChecks doc tracks trackIds seen = .ok seen' := by
  induction tracks generalizing trackIds seen with
  | nil => exact ⟨seen, rfl⟩
  | cons track tracks ih =>
    obtain ⟨hclip, hclips⟩ := forall_mem_cons.mp hclips
    obtain ⟨hfirst, hapart⟩ := forall_mem_cons.mp hapart
    rw [map_cons, nodup_cons] at htracks
    obtain ⟨htrackFresh, hfreshTracks⟩ := forall_mem_cons.mp hfreshTracks
    rw [flatMap_cons, map_append, nodup_append] at hids
    rw [flatMap_cons, forall_mem_append] at hfresh
    have hnone : ∀ entry ∈ (none : Option (Clip × TimeCode)), entry.1.timelineStart ≤ entry.2 ∧
        ∀ clip ∈ track.clips, entry.2 ≤ clip.timelineStart := by
      rintro entry ⟨⟩
    obtain ⟨next, hnext⟩ := validateClips_of_parts none seen hclip hids.1 hfresh.1 hfirst hnone
    have hseen := (validateClips_ok hnext).clipIds
    have hfreshNext : ∀ other ∈ tracks, other.id ∉ track.id :: trackIds := by
      intro other hother hmem
      rcases mem_cons.mp hmem with heq | hmem
      · exact htracks.1 (mem_map.mpr ⟨other, hother, heq⟩)
      · exact hfreshTracks other hother hmem
    have hfreshClips : ∀ clip ∈ tracks.flatMap Track.clips, clip.id ∉ next.clipIds := by
      intro other hother hmem
      rw [hseen, mem_append, mem_reverse] at hmem
      rcases hmem with hmem | hmem
      · exact hids.2.2 _ hmem _ (mem_map_of_mem hother) rfl
      · exact hfresh.2 other hother hmem
    obtain ⟨seen', hrest⟩ := ih (track.id :: trackIds) next hclips hapart htracks.2 hfreshNext hids.2.1 hfreshClips
    refine ⟨seen', ?_⟩
    rw [validateTracks, unless_eq_ok]
    exact ⟨htrackFresh, bind_eq_ok.mpr ⟨next, hnext, hrest⟩⟩

/-- The document with other tracks, another mix and another duration. -/
def Document.exchanged (doc : Document) (tracks : List Track) (mix : AudioMix) (duration : TimeCode) : Document :=
  { doc with tracks, audioMix := mix, duration }

variable {tracks : List Track} {mix : AudioMix} {duration : TimeCode}

theorem sameFootage_exchanged (doc : Document) (tracks : List Track) (mix : AudioMix) (duration : TimeCode) :
    SameFootage doc (doc.exchanged tracks mix duration) :=
  ⟨rfl, rfl, fun _ => rfl⟩

/-- What an edit of the tracks has to keep. -/
structure TracksValid (doc : Document) (tracks : List Track) : Prop where
  clips : ∀ track ∈ tracks, ∀ clip ∈ track.clips, ∃ duration stop, ClipValid doc track clip duration stop
  apart : ∀ track ∈ tracks, Apart doc track.clips
  trackIds : (tracks.map Track.id).Nodup
  clipIds : ((tracks.flatMap Track.clips).map Clip.id).Nodup

theorem Document.Valid.tracksValid (h : doc.Valid) : TracksValid doc doc.tracks where
  clips := fun _ htrack _ hclip => h.clipValid htrack hclip
  apart := h.fits.apart
  trackIds := h.fits.trackIds
  clipIds := h.fits.clipIds

/-- A document is valid again with other valid tracks, the duration that they have, and a valid mix. -/
theorem Document.Valid.exchanged (h : doc.Valid) (htracks : TracksValid doc tracks)
    (hduration : doc.lastEnd (tracks.flatMap Track.clips) 0 = .ok duration)
    (hmix : validateMix (doc.exchanged tracks mix duration) = .ok ()) :
    (doc.exchanged tracks mix duration).Valid where
  fps := h.fps
  project := h.project
  mediaPool := h.mediaPool
  pool := h.pool
  tracks := by
    obtain ⟨⟨clipIds, expected⟩, hseen⟩ := validateTracks_of_parts []
      { clipIds := [], expectedDuration := 0 } htracks.clips htracks.apart htracks.trackIds
      (fun _ _ => not_mem_nil) htracks.clipIds (fun _ _ => not_mem_nil)
    have hlast := lastEnd_of_validateTracks hseen
    rw [hduration, Except.ok.injEq] at hlast
    refine ⟨clipIds, ?_⟩
    rw [(sameFootage_exchanged doc tracks mix duration).validateTracks]
    rw [← show duration = expected from hlast] at hseen
    exact hseen
  markers := h.markers
  mix := hmix

end Kinewright.Model
