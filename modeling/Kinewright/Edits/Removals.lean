import Kinewright.Timeline.Layers
import Kinewright.Edits.Acceptance

/-!
# Removed clips and tracks

`operation.rs`, `model.rs`: a clip or a track is removed. The project may get shorter, and then the curves over its
frames are cut; with a track, its routes and its entry of the mix go as well.
-/

namespace Kinewright.Edits

open Fallible Model List Timeline Operation

variable {doc after : Document} {found : Track} {clip : Clip} {id : ClipId} {mix : AudioMix} {trackIds : List TrackId}
  {duration : TimeCode}

/-! ## Removing a clip -/

/-- There is nothing to leave out. -/
theorem otherClips_eq_tracks {ids : List ClipId} (h : ∀ clip ∈ doc.clips, clip.id ∉ ids) :
    otherClips ids doc = doc.tracks := by
  refine (map_congr_left fun track htrack => ?_).trans (map_id doc.tracks)
  have hall : track.clips.filter (fun clip => clip.id ∉ ids) = track.clips :=
    filter_eq_self.mpr fun clip hclip => decide_eq_true (h clip (mem_clips htrack hclip))
  rw [hall]
  rfl

/-- A clip can be deleted. -/
theorem deleteClip_of (hdistinct : Distinct doc) (htrack : trackOf doc found.id = .ok found) (hclip : clip ∈ found.clips) :
    deleteClip doc clip.id = .ok (withClips doc found.id (found.clips.filter fun other => other.id ≠ clip.id)) := by
  obtain ⟨place, hplace⟩ := exists_placeOf (mem_of_trackOf htrack) hclip
  have hdelete : deleteClip doc clip.id = .ok (place.remove doc) := by
    rw [deleteClip, hplace]
    rfl
  rw [hdelete, ← deleteClip_eq hdistinct htrack hclip hdelete]

/-- Deleting a clip is accepted, whatever automation there is. -/
theorem deleteClip_accepted (hvalid : doc.validate = .ok ()) (hclip : clip ∈ doc.clips) :
    ∃ after, (Operation.deleteClip clip.id).apply doc = .ok after ∧ after.tracks = otherClips [clip.id] doc ∧
      Cuts after.duration doc.audioMix after.audioMix := by
  rw [← Document.valid_iff] at hvalid
  have hdistinct := distinct_of_fits hvalid.fits
  have hmix := hvalid.mixFits
  obtain ⟨found, hfound, hclip⟩ := mem_flatMap.mp hclip
  have htrack := hdistinct.trackOf hfound
  have hdelete := deleteClip_of hdistinct htrack hclip
  have hdraft : (Operation.deleteClip clip.id).draft doc = .ok
      { doc := withClips doc found.id (found.clips.filter fun other => other.id ≠ clip.id)
        events := [] ++ [.removed clip.id] } := by
    rw [draft, edit, Draft.delete, Draft.remove]
    rw [hdelete]
    rfl
  have hsub : (found.clips.filter fun other => other.id ≠ clip.id).Sublist found.clips := filter_sublist
  have htracks := tracksValid_withClips hvalid htrack
    (fun other hother => hvalid.clipValid hfound (hsub.subset hother)) ((hvalid.fits.apart found hfound).sublist hsub)
    ((hvalid.fits.trackClipIds hfound).sublist (hsub.map Clip.id)) fun other hother => .inl ((hsub.map Clip.id).subset hother)
  have hids := ids_withClips doc found.id (found.clips.filter fun other => other.id ≠ clip.id)
  obtain ⟨duration, -, happly⟩ := exists_apply hvalid hdraft rfl htracks (hids ▸ hmix)
  refine ⟨_, happly, ?_, cuts_following (fun curve => hmix.curve_valid) doc.duration duration⟩
  obtain ⟨rest, hrest, hclips⟩ := exists_clips_withClips htrack
  have hnodup := (hrest.map Clip.id).nodup_iff.mp hdistinct.clipIds
  rw [map_append, nodup_append] at hnodup
  have hgone : ∀ other ∈ (withClips doc found.id (found.clips.filter fun other => other.id ≠ clip.id)).clips,
      other.id ∉ [clip.id] := by
    intro other hother
    rw [mem_singleton]
    rcases mem_append.mp ((hclips _).mem_iff.mp hother) with hmem | hmem
    · exact of_decide_eq_true (mem_filter.mp hmem).2
    · exact fun heq => hnodup.2.2 _ (mem_map_of_mem hclip) _ (mem_map_of_mem hmem) heq.symm
  refine (otherClips_eq_tracks hgone).symm.trans (otherClips_withClips htrack ?_)
  simp

/-- The project of a second, with a track that fades up until its last frame. -/
def fading : Document :=
  { demoDocument with
    audioMix :=
      { demoDocument.audioMix with
        tracks := [{ TrackMix.neutral 1 with gainCurve := some (ramp .linear 34 100) }] } }

theorem deleteClip_accepted_fading : ∃ after, (Operation.deleteClip 1).apply fading = .ok after ∧
    after.tracks = otherClips [1] fading ∧ Cuts after.duration fading.audioMix after.audioMix := by
  have hvalid : fading.validate = .ok () := by decide +kernel
  have hclip : demoClip ∈ fading.clips := mem_singleton.mpr rfl
  exact deleteClip_accepted hvalid hclip

/-! ## Removing a track -/

variable {track : TrackId}

/-- The bus without the track. -/
def dropRoutes (track : TrackId) (bus : AudioBus) : AudioBus :=
  { bus with
    tracks := bus.tracks.filter fun other => other ≠ track
    duckingSidechainTracks := bus.duckingSidechainTracks.filter fun other => other ≠ track }

/-- The bus routes another track, too. -/
def RoutesOther (track : TrackId) (bus : AudioBus) : Prop := ∃ other ∈ bus.tracks, other ≠ track

theorem filter_ne_nil {tracks : List TrackId} :
    (tracks.filter fun other => other ≠ track) ≠ [] ↔ ∃ other ∈ tracks, other ≠ track := by
  simp

theorem mem_dropTrack_buses {bus : AudioBus} : bus ∈ (dropTrack mix track).buses ↔
    ∃ old ∈ mix.buses, RoutesOther track old ∧ bus = dropRoutes track old := by
  rw [dropTrack, mem_filter, decide_eq_true_eq, mem_map]
  constructor
  · rintro ⟨⟨old, hold, rfl⟩, hrouted⟩
    exact ⟨old, hold, filter_ne_nil.mp hrouted, rfl⟩
  · rintro ⟨old, hold, hother, rfl⟩
    exact ⟨⟨old, hold, rfl⟩, filter_ne_nil.mpr hother⟩

/-- A bus that goes on and is ducked, is ducked by another track, too. -/
def DuckedByOther (track : TrackId) (mix : AudioMix) : Prop :=
  ∀ bus ∈ mix.buses, RoutesOther track bus → (∃ effect ∈ bus.effects, effect.name = "audio_ducking") →
    ∃ other ∈ bus.duckingSidechainTracks, other ≠ track

theorem BusesApart.dropRoutes {previous bus : AudioBus} (h : BusesApart previous bus) :
    BusesApart (dropRoutes track previous) (dropRoutes track bus) :=
  ⟨h.1, fun other hother hmem => h.2 other (mem_filter.mp hother).1 (mem_filter.mp hmem).1⟩

/-- The mix without the track fits the other tracks. -/
theorem mixFits_dropTrack (h : MixFits mix trackIds duration) (hducked : DuckedByOther track mix) :
    MixFits (dropTrack mix track) (trackIds.filter fun other => other ≠ track) duration := by
  have hkept {other : TrackId} {tracks : List TrackId} (hall : ∀ other ∈ tracks, other ∈ trackIds)
      (hother : other ∈ tracks.filter fun other => other ≠ track) :
      other ∈ trackIds.filter fun other => other ≠ track :=
    mem_filter.mpr ⟨hall other (mem_filter.mp hother).1, (mem_filter.mp hother).2⟩
  have hsorted := isChain_iff_pairwise.mp h.sorted
  refine ⟨isChain_iff_pairwise.mpr (hsorted.filter _), ?_, ?_, ?_, h.master⟩
  · intro entry hentry
    obtain ⟨hentry, hne⟩ := mem_filter.mp hentry
    have hfits := h.entries entry hentry
    exact ⟨mem_filter.mpr ⟨hfits.track, hne⟩, hfits.values, hfits.gain, hfits.pan⟩
  · have hapart : (mix.buses.map (dropRoutes track)).Pairwise BusesApart :=
      pairwise_map.mpr (h.apart.imp BusesApart.dropRoutes)
    exact hapart.filter _
  · intro bus hbus
    obtain ⟨old, hold, hother, rfl⟩ := mem_dropTrack_buses.mp hbus
    have hfits := h.buses old hold
    refine ⟨hfits.named, filter_ne_nil.mpr hother, hfits.fader, ⟨hfits.tracks.1.filter _, fun _ => hkept hfits.tracks.2⟩,
      ⟨hfits.sidechain.1.filter _, fun _ => hkept hfits.sidechain.2⟩, hfits.chain.distinct, fun effect heffect => ?_,
      hfits.chain.lookahead⟩
    have heach := hfits.chain.each effect heffect
    exact ⟨heach.audio, heach.enabled, heach.notKeyed, heach.valid,
      fun hname => filter_ne_nil.mpr (hducked old hold hother ⟨effect, heffect, hname⟩), heach.curves⟩

/-- Tracks are valid without some of them. -/
theorem tracksValid_filter (hvalid : doc.Valid) (p : Track → Bool) : TracksValid doc (doc.tracks.filter p) := by
  have hsub : (doc.tracks.filter p).Sublist doc.tracks := filter_sublist
  have hvalid := hvalid.tracksValid
  exact ⟨fun other hother => hvalid.clips other (hsub.subset hother), fun other hother =>
    hvalid.apart other (hsub.subset hother), hvalid.trackIds.sublist (hsub.map Track.id),
    hvalid.clipIds.sublist ((hsub.flatMap Track.clips).map Clip.id)⟩

/-- A track that is there can be removed. -/
theorem removeTrack_of (hdistinct : Distinct doc) (htrack : track ∈ doc.tracks.map Track.id) :
    removeTrack doc track = .ok
      (doc.exchanged (doc.tracks.filter fun other => other.id ≠ track) (dropTrack doc.audioMix track) doc.duration) := by
  obtain ⟨found, hfound, hid⟩ := mem_map.mp htrack
  have hany : (doc.tracks.any fun other => other.id = track) = true :=
    any_eq_true.mpr ⟨found, hfound, decide_eq_true hid⟩
  rw [removeTrack, removeFirst, if_pos hany, eraseP_eq_filter hdistinct.trackIds]
  rfl

/-- Nothing of the track is left in the mix. The buses of other tracks are still there, with their effects. -/
structure TrackGone (doc after : Document) (track : TrackId) : Prop where
  tracks : after.tracks = doc.tracks.filter fun other => other.id ≠ track
  entries : ∀ entry ∈ after.audioMix.tracks, entry.track ≠ track
  routes : ∀ bus ∈ after.audioMix.buses, track ∉ bus.tracks ∧ track ∉ bus.duckingSidechainTracks
  buses : ∃ cut : AutomationCurve → AutomationCurve, ∀ bus ∈ doc.audioMix.buses, RoutesOther track bus →
    { dropRoutes track bus with
      gainCurve := bus.gainCurve.map cut
      effects := mapChain cut bus.effects } ∈ after.audioMix.buses ∧
    ∀ curve ∈ bus.gainCurve.toList ++ chainCurves bus.effects, KeepsValues after.duration curve (cut curve)

/-- A mix that was only cut after the track was dropped. -/
theorem trackGone_of_cuts (htracks : after.tracks = doc.tracks.filter fun other => other.id ≠ track)
    (hcuts : Cuts after.duration (dropTrack doc.audioMix track) after.audioMix) : TrackGone doc after track := by
  obtain ⟨cut, hmix, hkeeps⟩ := hcuts
  refine ⟨htracks, ?_, ?_, cut, fun bus hbus hother => ⟨?_, fun curve hcurve => hkeeps curve ?_⟩⟩
  · rw [hmix, AudioMix.mapCurves, forall_mem_map]
    exact fun entry hentry => of_decide_eq_true (mem_filter.mp hentry).2
  · rw [hmix, AudioMix.mapCurves, forall_mem_map]
    intro bus hbus
    obtain ⟨old, -, -, rfl⟩ := mem_dropTrack_buses.mp hbus
    have hgone {tracks : List TrackId} : track ∉ tracks.filter fun other => other ≠ track := fun hmem =>
      of_decide_eq_true (mem_filter.mp hmem).2 rfl
    exact ⟨hgone, hgone⟩
  · rw [hmix]
    exact mem_map.mpr ⟨dropRoutes track bus, mem_dropTrack_buses.mpr ⟨bus, hbus, hother, rfl⟩, rfl⟩
  · refine mem_append_left _ (mem_append_right _ (mem_flatMap.mpr ⟨dropRoutes track bus, ?_, hcurve⟩))
    exact mem_dropTrack_buses.mpr ⟨bus, hbus, hother, rfl⟩

/-- Removing a track is accepted and leaves nothing of it, exactly if no bus is left with a ducking effect and nothing
to duck by. -/
theorem removeTrack_accepted_iff (hvalid : doc.validate = .ok ()) (htrack : track ∈ doc.tracks.map Track.id) :
    (∃ after, (Operation.removeTrack track).apply doc = .ok after ∧ TrackGone doc after track) ↔
      DuckedByOther track doc.audioMix := by
  rw [← Document.valid_iff] at hvalid
  have hdistinct := distinct_of_fits hvalid.fits
  have hremove := removeTrack_of hdistinct htrack
  obtain ⟨found, hfound, hid⟩ := mem_map.mp htrack
  have hdraft : (Operation.removeTrack track).draft doc = .ok
      { doc := doc.exchanged (doc.tracks.filter fun other => other.id ≠ track) (dropTrack doc.audioMix track) doc.duration
        events := [] ++ found.clips.map fun clip => .removed clip.id } := by
    rw [draft, edit, Draft.removeTrack]
    rw [← hid, hdistinct.trackOf hfound, hid, hremove]
    rfl
  have hids : (doc.tracks.filter fun other => other.id ≠ track).map Track.id
      = (doc.tracks.map Track.id).filter fun other => other ≠ track := by
    rw [filter_map]
    rfl
  constructor
  · rintro ⟨after, happly, hgone⟩ bus hbus hother ⟨effect, heffect, hname⟩
    obtain ⟨edited, happlied⟩ := applied_of_apply happly
    obtain ⟨cut, hbuses⟩ := hgone.buses
    -- the bus that is left is valid, so something is left to duck by
    have hfits := happlied.after.mixFits.buses _ (hbuses bus hbus hother).1
    have heach := hfits.chain.each _ (mem_map.mpr ⟨effect, heffect, rfl⟩)
    exact filter_ne_nil.mp (heach.ducking hname)
  · intro hducked
    have hmix := mixFits_dropTrack hvalid.mixFits hducked
    obtain ⟨duration, -, happly⟩ := exists_apply hvalid hdraft rfl (tracksValid_filter hvalid _) (hids ▸ hmix)
    exact ⟨_, happly, trackGone_of_cuts rfl (cuts_following (fun curve => hmix.curve_valid) doc.duration duration)⟩

/-- The first track goes through a bus that the second one ducks. -/
def ducked : Document :=
  { demoDocument with
    tracks := demoDocument.tracks ++ [{ id := 2, kind := .audio, syncLock := false, clips := [] }]
    audioMix :=
      { demoDocument.audioMix with
        buses :=
          [{ id := 1
             name := "Music"
             tracks := [1]
             gainTenthDb := 0
             gainCurve := none
             effects :=
               [{ id := 1
                  name := "audio_ducking"
                  parameters := .empty
                  keyframes := .empty
                  enabled := true
                  enabledCurve := none }]
             duckingSidechainTracks := [2] }] } }

/-- With the track that goes through it the bus goes, too. -/
theorem removeTrack_accepted_ducked :
    ∃ after, (Operation.removeTrack 1).apply ducked = .ok after ∧ TrackGone ducked after 1 := by
  refine (removeTrack_accepted_iff (by decide +kernel) (by decide)).mpr ?_
  intro bus hbus hother
  obtain rfl := mem_singleton.mp hbus
  obtain ⟨other, hother, hne⟩ := hother
  exact absurd (mem_singleton.mp hother) hne

/-- The track that ducks the bus cannot be removed. -/
theorem removeTrack_ducking_refused : ducked.validate = .ok () ∧ 2 ∈ ducked.tracks.map Track.id ∧
    ¬ ∃ after, (Operation.removeTrack 2).apply ducked = .ok after ∧ TrackGone ducked after 2 := by
  refine ⟨by decide +kernel, by decide, ?_⟩
  rintro ⟨after, happly, -⟩
  have hrefused : error? ((Operation.removeTrack 2).apply ducked) = some (.audioBusDuckingWithoutSidechain 1) := by
    decide +kernel
  rw [happly] at hrefused
  cases hrefused

end Kinewright.Edits
