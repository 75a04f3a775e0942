import Kinewright.Model.Mixes
import Kinewright.Edits.Single

/-!
# Edits that are accepted

`operation.rs`: an operation on a valid document is refused if the document it makes is not valid. An edit of the
tracks is accepted if the clips it leaves are valid and apart, and the mix fits the tracks that are left.
-/

namespace Kinewright.Edits

open Fallible Model

variable {doc : Document} {found : Track} {clips : List Clip} {clip : Clip} {tracks : List Track} {mix : AudioMix}

/-- An operation is accepted if it makes tracks that are valid, and a mix that fits them. -/
theorem exists_apply {operation : Operation} {edited : Draft} (hvalid : doc.Valid)
    (hdraft : operation.draft doc = .ok edited) (hdoc : edited.doc = doc.exchanged tracks mix doc.duration)
    (htracks : TracksValid doc tracks) (hmix : MixFits mix (tracks.map Track.id) doc.duration) :
    ∃ duration, doc.lastEnd (tracks.flatMap Track.clips) 0 = .ok duration ∧
      operation.apply doc = .ok (doc.exchanged tracks (mix.following doc.duration duration) duration) := by
  obtain ⟨duration, hduration, hrecomputed, hafter⟩ := hvalid.retracked htracks hmix
  exact ⟨duration, hduration, apply_of_valid hvalid hdraft (hdoc ▸ hrecomputed) hafter⟩

/-! ## Other clips on a track -/

theorem ids_withClips (doc : Document) (track : TrackId) (clips : List Clip) :
    (withClips doc track clips).tracks.map Track.id = doc.tracks.map Track.id :=
  List.map_modifyFirst (fun other _ => id_setClips clips other) doc.tracks

/-- The checks of a clip do not read the other clips of its track. -/
theorem clipValid_setClips {duration stop : TimeCode} (h : ClipValid doc found clip duration stop) :
    ClipValid doc (setClips clips found) clip duration stop where
  start := h.start
  content := h.content
  speed := h.speed
  duration_eq := h.duration_eq
  pos := h.pos
  stop_eq := h.stop_eq
  data := h.data
  enabled := h.enabled

/-- Tracks are valid with other valid clips on one of them, which have ids of its clips or new ones. -/
theorem tracksValid_withClips (hvalid : doc.Valid) (htrack : trackOf doc found.id = .ok found)
    (hclips : ∀ clip ∈ clips, ∃ duration stop, ClipValid doc found clip duration stop) (hapart : Apart doc clips)
    (hnodup : (clips.map Clip.id).Nodup)
    (hids : ∀ id ∈ clips.map Clip.id, id ∈ found.clips.map Clip.id ∨ id ∉ doc.clips.map Clip.id) :
    TracksValid doc (withClips doc found.id clips).tracks := by
  have hdistinct := (distinct_of_fits hvalid.fits).withClips htrack hnodup hids
  have hmem : ∀ track ∈ (withClips doc found.id clips).tracks,
      track = setClips clips found ∨ track ∈ doc.tracks := by
    intro track hmem
    rcases List.mem_modifyFirst hmem with hold | ⟨other, -, hfind, rfl⟩
    · exact .inr hold
    · obtain rfl := Option.some.inj (hfind.symm.trans (okOr_eq_ok.mp htrack))
      exact .inl rfl
  refine ⟨?_, ?_, hdistinct.trackIds, hdistinct.clipIds⟩
  · intro track hin clip hclip
    rcases hmem track hin with rfl | hold
    · obtain ⟨duration, stop, hfits⟩ := hclips clip hclip
      exact ⟨duration, stop, clipValid_setClips hfits⟩
    · exact hvalid.clipValid hold hclip
  · intro track hin
    rcases hmem track hin with rfl | hold
    · exact hapart
    · exact hvalid.fits.apart track hold

end Kinewright.Edits
