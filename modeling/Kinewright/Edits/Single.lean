import Kinewright.Edits.Steps
import Kinewright.Edits.Tracks

/-!
# Edits of single clips

`operation.rs`: an edit of a clip where it is exchanges it for another one of the same id. The other clips stay.
-/

namespace Kinewright.Edits

open Fallible Model List

variable {doc after : Document} {track : TrackId} {found : Track} {clips : List Clip} {clip clip' : Clip}
  {ids : List ClipId} {id : ClipId}

/-! ## An accepted operation -/

/-- What an accepted operation did. -/
structure Applied (operation : Operation) (doc after : Document) (edited : Draft) : Prop where
  before : doc.Valid
  edits : operation.draft doc = .ok edited
  recomputed : edited.doc.recomputeDuration = .ok after
  after : after.Valid

theorem applied_of_apply {operation : Operation} (h : operation.apply doc = .ok after) :
    ∃ edited, Applied operation doc after edited := by
  rw [Operation.apply, bind_eq_ok] at h
  obtain ⟨⟨⟩, hvalid, h⟩ := h
  obtain ⟨draft, hstep, h⟩ := bind_eq_ok.mp h
  obtain rfl := Except.ok.inj h
  obtain ⟨edited, hedited, hcandidate, -, hvalid'⟩ := step_ok hstep
  exact ⟨edited, Document.valid_iff.mpr hvalid, hedited, hcandidate, hvalid'⟩

/-- An operation is accepted if what it makes of a valid document is valid once the duration is computed anew. -/
theorem apply_of_valid {operation : Operation} {edited : Draft} (hvalid : doc.Valid)
    (hdraft : operation.draft doc = .ok edited) (hrecomputed : edited.doc.recomputeDuration = .ok after)
    (hafter : after.Valid) : operation.apply doc = .ok after := by
  rw [Operation.apply, Document.valid_iff.mp hvalid, ok_bind, Operation.step, hdraft, ok_bind, hrecomputed, ok_bind,
    Document.valid_iff.mp hafter]
  rfl

theorem keep_of_ok {draft : Draft} {edit : Document → Except OpError Document} (h : edit draft.doc = .ok after) :
    draft.keep edit = .ok { draft with doc := after } := by
  rw [Draft.keep, h]
  rfl

/-- An operation that keeps the clips is accepted with what its edit makes of the document. -/
theorem apply_of_keep {operation : Operation} (edit : Document → Except OpError Document) {next : Document}
    (hedits : ∀ draft, operation.edit draft = draft.keep edit) (hvalid : doc.Valid) (hedit : edit doc = .ok next)
    (hrecomputed : next.recomputeDuration = .ok after) (hafter : after.Valid) : operation.apply doc = .ok after := by
  have hdraft : operation.draft doc = .ok { doc := next, events := [] } := by
    rw [Operation.draft, hedits]
    exact keep_of_ok hedit
  exact apply_of_valid hvalid hdraft hrecomputed hafter

/-- What an edit that keeps the clips made of the document. -/
theorem keep_eq {draft next : Draft} {edit : Document → Except OpError Document} (h : draft.keep edit = .ok next) :
    edit draft.doc = .ok next.doc := by
  rw [Draft.keep, bind_eq_ok] at h
  obtain ⟨doc, hdoc, h⟩ := h
  obtain rfl := Except.ok.inj h
  exact hdoc

namespace Applied

variable {operation : Operation} {edited : Draft} (h : Applied operation doc after edited)

include h

theorem distinct : Distinct doc := distinct_of_fits h.before.fits

theorem tracks : after.tracks = edited.doc.tracks := (recomputeDuration_ok h.recomputed).1

theorem mediaPool : after.mediaPool = edited.doc.mediaPool := (recomputeDuration_ok h.recomputed).2.2

theorem fps : after.fps = edited.doc.fps := (recomputeDuration_ok h.recomputed).2.1

end Applied

/-! ## The other clips -/

/-- The tracks with the other clips. -/
def otherClips (ids : List ClipId) (doc : Document) : List Track :=
  doc.tracks.map fun track => setClips (track.clips.filter fun clip => clip.id ∉ ids) track

theorem otherClips_withClips (htrack : trackOf doc track = .ok found)
    (hclips : clips.filter (fun clip => clip.id ∉ ids) = found.clips.filter fun clip => clip.id ∉ ids) :
    otherClips ids (withClips doc track clips) = otherClips ids doc := by
  refine map_modifyFirst_of_find? fun other hother => ?_
  obtain rfl := Option.some.inj (hother.symm.trans (okOr_eq_ok.mp htrack))
  rw [setClips, setClips, setClips, hclips]

/-- The clip of the id is another one. -/
def swapped (id : ClipId) (clip' clip : Clip) : Clip := if clip.id = id then clip' else clip

theorem filter_swapped (hid : clip'.id = id) (hmem : id ∈ ids) (clips : List Clip) :
    (clips.map (swapped id clip')).filter (fun clip => clip.id ∉ ids) = clips.filter fun clip => clip.id ∉ ids := by
  induction clips with
  | nil => rfl
  | cons clip clips ih =>
    rw [map_cons, swapped]
    split
    · rename_i hclip
      rw [filter_cons_of_neg (by simp [hid, hmem]), filter_cons_of_neg (by simp [hclip, hmem]), ih]
    · by_cases hin : clip.id ∈ ids
      · rw [filter_cons_of_neg (by simp [hin]), filter_cons_of_neg (by simp [hin]), ih]
      · rw [filter_cons_of_pos (by simp [hin]), filter_cons_of_pos (by simp [hin]), ih]

theorem mem_otherClips : clip ∈ (otherClips ids doc).flatMap Track.clips ↔ clip ∈ doc.clips ∧ clip.id ∉ ids := by
  simp only [otherClips, flatMap_map, mem_flatMap, setClips, mem_filter, decide_eq_true_eq, Document.clips]
  constructor
  · rintro ⟨track, htrack, hclip, hid⟩
    exact ⟨⟨track, htrack, hclip⟩, hid⟩
  · rintro ⟨⟨track, htrack, hclip⟩, hid⟩
    exact ⟨track, htrack, hclip, hid⟩

/-- The other clips are in both documents. -/
theorem mem_of_otherClips (h : otherClips ids after = otherClips ids doc) (hclip : clip ∈ doc.clips)
    (hid : clip.id ∉ ids) : clip ∈ after.clips := by
  have hmem := mem_otherClips.mpr ⟨hclip, hid⟩
  rw [← h] at hmem
  exact (mem_otherClips.mp hmem).1

/-! ## Exchanging a clip -/

theorem findClip_isSome {tracks : List Track} (htrack : found ∈ tracks) (hclip : clip ∈ found.clips) :
    (findClip clip.id tracks).isSome = true := by
  induction tracks with
  | nil => cases htrack
  | cons track tracks ih =>
    rw [findClip]
    cases hfirst : track.clips.findIdx? fun other => other.id = clip.id with
    | some clipIndex => rfl
    | none =>
      rcases mem_cons.mp htrack with rfl | htrack
      · rw [findIdx?_eq_none_iff] at hfirst
        exact absurd rfl (of_decide_eq_false (hfirst clip hclip))
      · rw [Option.isSome_map]
        exact ih htrack

/-- A clip of the document has a place. -/
theorem exists_placeOf (htrack : found ∈ doc.tracks) (hclip : clip ∈ found.clips) :
    ∃ place, placeOf doc clip.id = .ok place := by
  obtain ⟨⟨trackIndex, clipIndex⟩, hfind⟩ := Option.isSome_iff_exists.mp (findClip_isSome htrack hclip)
  obtain ⟨found, clip, htrack, hclip, -⟩ := findClip_ok hfind
  refine ⟨⟨trackIndex, clipIndex, found, clip⟩, ?_⟩
  rw [placeOf, hfind, okOr_some, ok_bind]
  dsimp only
  rw [htrack, okOr_some, ok_bind, hclip, okOr_some, ok_bind]

theorem mem_of_placeOf {place : Place} (h : placeOf doc id = .ok place) :
    place.track ∈ doc.tracks ∧ place.clip ∈ place.track.clips ∧ place.clip.id = id := by
  obtain ⟨htrack, hclip, hid⟩ := placeOf_ok h
  exact ⟨mem_of_getElem? htrack, mem_of_getElem? hclip, hid⟩

/-- A clip exchanged for itself. -/
theorem map_swapped_self (hdistinct : Distinct doc) (htrack : found ∈ doc.tracks) (hclip : clip ∈ found.clips) :
    found.clips.map (swapped clip.id clip) = found.clips := by
  have hsame : ∀ other ∈ found.clips, swapped clip.id clip other = other := by
    intro other hother
    rw [swapped]
    split
    · exact hdistinct.eq_of_id (mem_clips htrack hclip) (mem_clips htrack hother) (Eq.symm ‹_›)
    · rfl
  rw [map_congr_left hsame, map_id']

variable {edit : Track → Clip → Except OpError Clip}

/-- An edit of a clip exchanges it on its track. -/
theorem editClip_eq (hdistinct : Distinct doc) (h : editClip doc id edit = .ok after) :
    ∃ found clip clip', trackOf doc found.id = .ok found ∧ clip ∈ found.clips ∧ clip.id = id ∧
      edit found clip = .ok clip' ∧ after = withClips doc found.id (found.clips.map (swapped id clip')) := by
  rw [editClip, bind_eq_ok] at h
  obtain ⟨place, hplace, h⟩ := h
  obtain ⟨clip', hedit, h⟩ := bind_eq_ok.mp h
  obtain rfl := Except.ok.inj h
  obtain ⟨hmem, hclip, rfl⟩ := mem_of_placeOf hplace
  have htrack := hdistinct.trackOf hmem
  obtain ⟨-, -, hat, hset⟩ := hdistinct.placeOf htrack hclip hplace
  refine ⟨place.track, place.clip, clip', htrack, hclip, rfl, hedit, ?_⟩
  rw [hset, set_eq_map (hdistinct.clips_nodup htrack) hat]
  rfl

/-- An edit of a clip that is possible exchanges it. -/
theorem editClip_of (hdistinct : Distinct doc) (htrack : found ∈ doc.tracks) (hclip : clip ∈ found.clips)
    (hedit : edit found clip = .ok clip') :
    editClip doc clip.id edit = .ok (withClips doc found.id (found.clips.map (swapped clip.id clip'))) := by
  obtain ⟨place, hplace⟩ := exists_placeOf htrack hclip
  obtain ⟨hfound, hsame, hat, hset⟩ := hdistinct.placeOf (hdistinct.trackOf htrack) hclip hplace
  have hnodup := hdistinct.clips_nodup (hdistinct.trackOf htrack)
  rw [editClip, hplace, ok_bind, hfound, hsame, hedit, ok_bind, hset, set_eq_map hnodup hat]
  rfl

/-- The clip that was edited, before and after. -/
structure Edited (doc after : Document) (id : ClipId) (clip clip' : Clip) : Prop where
  original : doc.clip id = some clip
  changed : after.clip id = some clip'
  others : otherClips [id] after = otherClips [id] doc

/-- An accepted edit of a clip. -/
theorem edited_of_editClip {operation : Operation} {edited : Draft} (h : Applied operation doc after edited)
    (hedit : editClip doc id edit = .ok edited.doc) :
    after.asset = doc.asset ∧ after.fps = doc.fps ∧ ∃ found clip clip', found ∈ doc.tracks ∧ clip ∈ found.clips ∧
      edit found clip = .ok clip' ∧ (clip'.id = clip.id → Edited doc after id clip clip' ∧ clip' ∈ after.clips) := by
  obtain ⟨found, clip, clip', htrack, hclip, rfl, hclip', hedited⟩ := editClip_eq h.distinct hedit
  refine ⟨?_, ?_, found, clip, clip', mem_of_trackOf htrack, hclip, hclip', fun hid => ?_⟩
  · funext asset
    rw [Document.asset, h.mediaPool, hedited]
    rfl
  · rw [h.fps, hedited]
    rfl
  · have hafter : trackOf after found.id = .ok (setClips (found.clips.map (swapped clip.id clip')) found) := by
      rw [trackOf, h.tracks, hedited]
      exact trackOf_withClips htrack
    have hmem : clip' ∈ after.clips := mem_clips (mem_of_trackOf hafter) (mem_map.mpr ⟨clip, hclip, if_pos rfl⟩)
    refine ⟨⟨?_, ?_, ?_⟩, hmem⟩
    · exact h.before.fits.clip_eq_some (mem_clips (mem_of_trackOf htrack) hclip)
    · rw [← hid]
      exact h.after.fits.clip_eq_some hmem
    · have hothers : otherClips [clip.id] after = otherClips [clip.id] edited.doc := by
        rw [otherClips, otherClips, h.tracks]
      rw [hothers, hedited]
      exact otherClips_withClips htrack (filter_swapped hid (mem_singleton_self _) found.clips)

end Kinewright.Edits
