import Kinewright.Edits.Operation

/-!
# What edits leave alone

An edit of a field of the project or of a clip changes neither the media pool nor which clips there are and
what they show.
-/

namespace Kinewright.Edits

open Fallible Model Except
open List hiding all

/-! ## The identity of clips -/

/-- A clip, the asset it is bound to, and whether it is a range of it. -/
structure Identity where
  id : ClipId
  asset : AssetId
  isMedia : Bool
deriving DecidableEq

def identity (clip : Clip) : Identity where
  id := clip.id
  asset := clip.asset
  isMedia := clip.content.isMedia

/-- The identities of the clips of the tracks. -/
def identities (tracks : List Track) : Multiset Identity := ↑(tracks.flatMap fun track => track.clips.map identity)

/-- The media pool is the same, and the clips are. -/
structure Kept (doc after : Document) : Prop where
  mediaPool : after.mediaPool = doc.mediaPool
  identities : identities after.tracks = identities doc.tracks

variable {doc after : Document}

theorem Kept.of_eq (hpool : after.mediaPool = doc.mediaPool) (htracks : after.tracks = doc.tracks) :
    Kept doc after := ⟨hpool, congrArg Edits.identities htracks⟩

theorem Kept.of_flatMap (hpool : after.mediaPool = doc.mediaPool)
    (h : (after.tracks.flatMap fun track => track.clips.map identity)
      = doc.tracks.flatMap fun track => track.clips.map identity) : Kept doc after :=
  ⟨hpool, congrArg (fun all : List Identity => (all : Multiset Identity)) h⟩

theorem Kept.trans {next : Document} (h : Kept doc after) (h' : Kept after next) : Kept doc next :=
  ⟨h'.mediaPool.trans h.mediaPool, h'.identities.trans h.identities⟩

/-! ## Places -/

variable {id : ClipId} {place : Place}

theorem placeOf_ok (h : placeOf doc id = .ok place) : doc.tracks[place.trackIndex]? = some place.track ∧
      place.track.clips[place.clipIndex]? = some place.clip ∧ place.clip.id = id := by
  rw [placeOf, bind_eq_ok] at h
  obtain ⟨⟨trackIndex, clipIndex⟩, hfound, h⟩ := h
  obtain ⟨track, htrack, h⟩ := bind_eq_ok.mp h
  obtain ⟨clip, hclip, h⟩ := bind_eq_ok.mp h
  obtain rfl := ok.inj h
  rw [okOr_eq_ok] at hfound htrack hclip
  obtain ⟨track', clip', htrack', hclip', hid⟩ := findClip_ok hfound
  obtain rfl := Option.some.inj (htrack'.symm.trans htrack)
  obtain rfl := Option.some.inj (hclip'.symm.trans hclip)
  exact ⟨htrack, hclip, hid⟩

/-- The clips of the place's track are exchanged. -/
theorem identities_setClips (h : placeOf doc id = .ok place) (clips : List Clip) :
    identities (place.setClips doc clips).tracks + ↑(place.track.clips.map identity)
      = identities doc.tracks + ↑(clips.map identity) := by
  obtain ⟨htrack, -, -⟩ := placeOf_ok h
  have hperm := flatMap_set_perm (f := fun track : Track => track.clips.map identity)
    { place.track with clips } htrack
  exact Multiset.coe_eq_coe.mpr hperm

variable {clips : List Clip}

/-- Clips of the same identities on the place's track are the same clips. -/
theorem Kept.setClips (h : placeOf doc id = .ok place) (hclips : clips.map identity = place.track.clips.map identity) :
    Kept doc (place.setClips doc clips) := by
  refine ⟨rfl, ?_⟩
  have heq := identities_setClips h clips
  rw [hclips] at heq
  exact add_right_cancel heq

variable {clip : Clip}

theorem map_identity_set {index : ℕ} {edited : Clip} (hclip : clips[index]? = some clip)
    (hedited : identity edited = identity clip) :
    (clips.set index edited).map identity = clips.map identity := by
  rw [map_set, hedited]
  refine ext_getElem? fun other => ?_
  rw [getElem?_set]
  by_cases heq : index = other
  · subst heq
    obtain ⟨hlt, -⟩ := List.getElem?_eq_some_iff.mp hclip
    rw [if_pos rfl, if_pos (by simpa using hlt), getElem?_map, hclip]
    rfl
  · rw [if_neg heq]

/-- A clip is edited and is the same clip. -/
theorem editClip_kept {edit : Track → Clip → Except OpError Clip}
    (hedit : ∀ track clip, Returns (identity · = identity clip) (edit track clip)) :
    Returns (Kept doc) (editClip doc id edit) := by
  refine .bind fun place hplace => .bind fun clip hclip => .ok ?_
  obtain ⟨-, hat, -⟩ := placeOf_ok hplace
  exact .setClips hplace (map_identity_set hat (hedit _ _ clip hclip))

theorem identity_surviveClipEdit {delta : TimeCode} :
    Returns (identity · = identity clip) (doc.surviveClipEdit clip delta) := by
  intro survived h
  obtain ⟨duration, -, rfl⟩ := surviveClipEdit_ok h
  rfl

theorem surviveEdit_kept {edit : Track → Clip → Except OpError (Clip × TimeCode)}
    (hedit : ∀ track clip, Returns (identity ·.1 = identity clip) (edit track clip)) :
    Returns (Kept doc) (surviveEdit doc id edit) := by
  refine editClip_kept fun track clip => .bind fun edited hedited => ?_
  refine identity_surviveClipEdit.imp fun survived hsurvived => ?_
  exact hsurvived.trans (hedit track clip edited hedited)

/-- An effect is edited, and the clip is the same one. -/
theorem editEffect_identity {effect : EffectId} {edit : Effect → Except OpError Effect} :
    Returns (identity · = identity clip) (editEffect clip effect edit) :=
  .bind fun _ _ => .bind fun _ _ => .ok rfl

/-! ## Every clip of the tracks -/

theorem editEach_identity {edit : Clip → Except OpError Clip}
    (hedit : ∀ clip, Returns (identity · = identity clip) (edit clip)) {clips' : List Clip}
    (h : editEach edit clips = .ok clips') : clips'.map identity = clips.map identity := by
  induction clips generalizing clips' with
  | nil =>
    obtain rfl := ok.inj h
    rfl
  | cons clip clips ih =>
    rw [editEach, bind_eq_ok] at h
    obtain ⟨edited, hedited, h⟩ := h
    obtain ⟨rest, hrest, h⟩ := bind_eq_ok.mp h
    obtain rfl := ok.inj h
    rw [map_cons, map_cons, hedit clip edited hedited, ih hrest]

/-- Every clip is edited and is the same clip. -/
theorem editTracks_identity {edit : Track → Clip → Except OpError Clip}
    (hedit : ∀ track clip, Returns (identity · = identity clip) (edit track clip))
    {tracks tracks' : List Track} (h : editTracks edit tracks = .ok tracks') :
    tracks'.flatMap (fun track => track.clips.map identity) = tracks.flatMap fun track => track.clips.map identity := by
  induction tracks generalizing tracks' with
  | nil =>
    obtain rfl := ok.inj h
    rfl
  | cons track tracks ih =>
    rw [editTracks, bind_eq_ok] at h
    obtain ⟨clips, hclips, h⟩ := h
    obtain ⟨rest, hrest, h⟩ := bind_eq_ok.mp h
    obtain rfl := ok.inj h
    rw [flatMap_cons, flatMap_cons, ih hrest, editEach_identity (hedit track) hclips]

/-! ## The catalogue and the mix -/

theorem removeLutAsset_kept (id : LutAssetId) : Returns (Kept doc) (removeLutAsset doc id) := by
  unfold removeLutAsset
  cases (lutAssetReferences doc id).head? with
  | some reference => exact .error _
  | none => exact .bind fun _ _ => .ok (.of_eq rfl rfl)

theorem editMarker_kept (id : MarkerId) (edit : Marker → Except OpError Marker) :
    Returns (Kept doc) (editMarker doc id edit) :=
  .bind fun _ _ => .bind fun _ _ => .ok (.of_eq rfl rfl)

theorem moveMarker_kept (id : MarkerId) (target : TimeCode) : Returns (Kept doc) (moveMarker doc id target) :=
  .bind fun _ _ => editMarker_kept id _

theorem storeTrackMix_kept (entry : TrackMix) : Returns (Kept doc) (storeTrackMix doc entry) :=
  .bind fun _ _ => .bind fun _ _ => .ok (.of_eq rfl rfl)

/-- A new track has no clips. -/
theorem addTrack_kept (track : Track) : Returns (Kept doc) (addTrack doc track) := by
  refine .bind fun _ _ => .bind fun _ hempty => .ok ⟨rfl, ?_⟩
  have hclips : track.clips = [] := not_not.mp (refuse_eq_ok.mp hempty)
  simp [identities, hclips]

theorem setTrackSyncLock_kept (id : TrackId) (locked : Bool) : Returns (Kept doc) (setTrackSyncLock doc id locked) := by
  refine .bind fun _ _ => .ok ⟨rfl, ?_⟩
  have hclips : ∀ tracks : List Track, (tracks.modifyFirst (fun track => track.id = id) fun track =>
        { track with syncLock := locked }).map Track.clips = tracks.map Track.clips :=
    map_modifyFirst fun _ _ => rfl
  have hflat : ∀ tracks : List Track, tracks.flatMap (fun track => track.clips.map identity)
      = (tracks.map Track.clips).flatMap fun clips => clips.map identity := by
    intro tracks
    rw [flatMap_map]
  rw [identities, identities, hflat, hflat, hclips]

/-! ## The clips that stay where they are -/

theorem insertEffect_kept (clip : ClipId) (index : Option ℕ) (effect : Effect) :
    Returns (Kept doc) (insertEffect doc clip index effect) := by
  refine .bind fun _ _ => .bind fun _ _ => .bind fun _ _ => editClip_kept fun _ _ => ?_
  refine .bind fun _ _ => .bind fun _ _ => .bind fun _ _ => .bind fun _ _ => .bind fun _ _ => ?_
  exact .bind fun _ _ => .bind fun _ _ => .ok rfl

theorem convertLegacyLook_kept (clip : ClipId) (effect : EffectId) (lutAsset : LutAssetId) (mixBasisPoints : Int64) :
    Returns (Kept doc) (convertLegacyLook doc clip effect lutAsset mixBasisPoints) := by
  refine editClip_kept fun _ _ => ?_
  refine .bind fun _ _ => .bind fun _ _ => .bind fun _ _ => .bind fun _ _ => .bind fun _ _ => ?_
  exact .bind fun _ _ => .ok rfl

theorem setTitleParam_kept (clip : ClipId) (name : String) (value : ParamValue) :
    Returns (Kept doc) (setTitleParam doc clip name value) := by
  refine editClip_kept fun _ found => .bind fun _ _ => ?_
  split
  · rename_i title htitle
    refine .bind fun _ _ => .bind fun edited _ => .bind fun _ _ => .ok ?_
    simp [identity, htitle, ClipContent.isMedia]
  · exact .error _

theorem setSolidColor_kept (clip : ClipId) (color : SolidColor) :
    Returns (Kept doc) (setSolidColor doc clip color) := by
  refine editClip_kept fun _ found => ?_
  split
  · rename_i old hold
    exact .ok (by simp [identity, hold, ClipContent.isMedia])
  · exact .error _

theorem identity_clampTitle {duration : TimeCode} :
    (clampTitle duration clip.content).isMedia = clip.content.isMedia := by
  cases hcontent : clip.content with
  | title title => rfl
  | _ => rfl

theorem trimClip_kept (clip : ClipId) (newSource : FrameRange) : Returns (Kept doc) (trimClip doc clip newSource) := by
  refine surviveEdit_kept fun _ original => .bind fun _ _ => .bind fun _ _ => ?_
  refine .bind fun _ _ => .bind fun _ _ => .ok ?_
  rw [identity, identity, identity_clampTitle]

theorem slipClip_kept (clip : ClipId) (newSourceIn : TimeCode) :
    Returns (Kept doc) (slipClip doc clip newSourceIn) := by
  refine editClip_kept fun _ _ => .bind fun _ _ => .bind fun _ _ => .bind fun _ _ => ?_
  exact .bind fun _ _ => .bind fun _ _ => .ok rfl

/-! ## Several clips at once -/

theorem rollEdit_kept (leftId rightId : ClipId) (at_ : TimeCode) :
    Returns (Kept doc) (rollEdit doc leftId rightId at_) := by
  refine .bind fun left hleft => .bind fun right hright => .bind fun _ hadjacent => ?_
  refine .bind fun _ _ => .bind fun _ _ => .bind fun _ _ => .bind fun _ _ => .bind fun _ _ => ?_
  refine .bind fun _ _ => .bind fun _ _ => .bind fun leftClip hleftClip => ?_
  refine .bind fun rightClip hrightClip => .ok ?_
  obtain ⟨hleftTrack, hleftAt, -⟩ := placeOf_ok hleft
  obtain ⟨hrightTrack, hrightAt, -⟩ := placeOf_ok hright
  rw [refuse_eq_ok, not_or, not_not] at hadjacent
  -- both clips are on the one track, and the right one is another clip
  rw [← hadjacent.1, hleftTrack] at hrightTrack
  have htrack := Option.some.inj hrightTrack
  refine .setClips hleft ?_
  have hleftSame := identity_surviveClipEdit _ hleftClip
  have hrightSame := identity_surviveClipEdit _ hrightClip
  have hrightSet : (left.track.clips.set left.clipIndex leftClip)[right.clipIndex]? = some right.clip := by
    rw [getElem?_set_ne (by omega), htrack, hrightAt]
  rw [map_identity_set hrightSet hrightSame, map_identity_set hleftAt hleftSame]

theorem neighbors_eq_some {left right : Clip} (h : neighbors place = some (left, right)) :
    place.clipIndex ≠ 0 ∧ place.track.clips[place.clipIndex - 1]? = some left ∧
      place.track.clips[place.clipIndex + 1]? = some right := by
  unfold neighbors at h
  by_cases hfirst : place.clipIndex = 0
  · simp [hfirst] at h
  · simp only [if_neg hfirst, Option.bind_eq_bind, Option.bind_eq_some_iff, Option.some.injEq, Prod.mk.injEq] at h
    obtain ⟨_, hleft, _, hright, rfl, rfl⟩ := h
    exact ⟨hfirst, hleft, hright⟩

theorem slideClip_kept (clip : ClipId) (at_ : TimeCode) : Returns (Kept doc) (slideClip doc clip at_) := by
  refine .bind fun middle hmiddle => .bind fun ⟨left, right⟩ hneighbors => ?_
  refine .bind fun _ _ => .bind fun _ _ => .bind fun _ _ => .bind fun _ _ => .bind fun _ _ => ?_
  refine .bind fun _ _ => .bind fun _ _ => .bind fun _ _ => .bind fun _ _ => .bind fun _ _ => ?_
  refine .bind fun leftClip hleftClip => .bind fun rightClip hrightClip => .ok ?_
  obtain ⟨-, hmiddleAt, -⟩ := placeOf_ok hmiddle
  obtain ⟨hfirst, hleft, hright⟩ := neighbors_eq_some (okOr_eq_ok.mp hneighbors)
  have hleftSame := identity_surviveClipEdit _ hleftClip
  have hrightSame := identity_surviveClipEdit _ hrightClip
  have hmoved (start : TimeCode) :
      identity { middle.clip with timelineStart := start } = identity middle.clip := rfl
  refine .setClips hmiddle ?_
  have hmiddleSet : (middle.track.clips.set (middle.clipIndex - 1) leftClip)[middle.clipIndex]?
      = some middle.clip := by
    rw [getElem?_set_ne (by omega), hmiddleAt]
  have hrightSet : ((middle.track.clips.set (middle.clipIndex - 1) leftClip).set middle.clipIndex
      { middle.clip with timelineStart := at_ })[middle.clipIndex + 1]? = some right := by
    rw [getElem?_set_ne (by omega), getElem?_set_ne (by omega), hright]
  rw [map_identity_set hrightSet hrightSame, map_identity_set hmiddleSet (hmoved at_), map_identity_set hleft hleftSame]

theorem setLink_kept (clips : List ClipId) (link : Option LinkId) : Kept doc (setLink doc clips link) := by
  have hclip (clip : Clip) : identity (if clip.id ∈ clips then { clip with link } else clip)
      = identity clip := by
    by_cases h : clip.id ∈ clips
    · rw [if_pos h]
      rfl
    · rw [if_neg h]
  refine .of_flatMap rfl ?_
  simp [setLink, flatMap_map, Function.comp_def, hclip]

theorem linkClips_kept (clips : List ClipId) : Returns (Kept doc) (linkClips doc clips) :=
  .bind fun _ _ => .bind fun _ _ => .ok (setLink_kept _ _)

theorem identity_shiftClip (targets : List TrackId) (boundary : TimeCode)
    (shift : TimeCode → Option TimeCode) (track : Track) (clip : Clip) :
    Returns (identity · = identity clip) (shiftClip targets boundary shift track clip) :=
  .ite (fun _ => .bind fun _ _ => .ok rfl) fun _ => .ok rfl

theorem recomputeDuration_kept : Returns (Kept doc) doc.recomputeDuration := by
  intro after h
  obtain ⟨htracks, -, hpool⟩ := recomputeDuration_ok h
  exact .of_eq hpool htracks

theorem rippleInsertGapForTracks_kept (targets : List TrackId) (at_ duration : TimeCode) :
    Returns (Kept doc) (rippleInsertGapForTracks doc targets at_ duration) := by
  refine .bind fun _ _ => .bind fun _ _ => .bind fun _ _ => .bind fun tracks htracks => ?_
  refine .bind fun moved hmoved => .bind fun _ _ => .ok ?_
  have hshift : Kept doc { doc with tracks } :=
    .of_flatMap rfl (editTracks_identity (identity_shiftClip _ _ _) htracks)
  have hmoved := recomputeDuration_kept moved hmoved
  exact hshift.trans ⟨hmoved.mediaPool, hmoved.identities⟩

/-! ## Clips that come, go and move -/

/-- The document has the clips that the other has, and one more. -/
structure Gains (doc after : Document) (gained : Identity) : Prop where
  mediaPool : after.mediaPool = doc.mediaPool
  identities : identities after.tracks = gained ::ₘ identities doc.tracks

theorem identities_of_perm {tracks tracks' : List Track} {old new : List Identity} {gained : Identity}
    (hperm : (tracks'.flatMap fun track => track.clips.map identity) ++ old
      |>.Perm ((tracks.flatMap fun track => track.clips.map identity) ++ new))
    (hnew : new.Perm (old ++ [gained])) : Edits.identities tracks' = gained ::ₘ Edits.identities tracks := by
  have heq := Multiset.coe_eq_coe.mpr (hperm.trans (hnew.append_left _))
  simp only [← Multiset.coe_add, ← add_assoc, Multiset.coe_singleton] at heq
  rw [add_right_comm] at heq
  rw [Edits.identities, add_right_cancel heq, add_comm]
  rfl

theorem insertClip_gains {track : TrackId} {found : Track} (htrack : trackOf doc track = .ok found)
    (clip : Clip) : Gains doc (insertClip doc track clip) (identity clip) := by
  refine ⟨rfl, ?_⟩
  have hperm := flatMap_modifyFirst_perm (f := fun track : Track => track.clips.map identity)
    (g := fun track => { track with clips := (track.clips ++ [clip]).insertionSort Clip.le })
    (okOr_eq_ok.mp htrack)
  have hsorted := (perm_insertionSort Clip.le (found.clips ++ [clip])).map identity
  rw [map_append] at hsorted
  exact identities_of_perm hperm hsorted

theorem remove_gains (h : placeOf doc id = .ok place) : Gains (place.remove doc) doc (identity place.clip) := by
  refine ⟨rfl, ?_⟩
  obtain ⟨-, hclip, -⟩ := placeOf_ok h
  obtain ⟨hlt, hat⟩ := List.getElem?_eq_some_iff.mp hclip
  have hperm := (getElem_cons_eraseIdx_perm hlt).map identity
  rw [hat, map_cons] at hperm
  have heq := identities_setClips h (place.track.clips.eraseIdx place.clipIndex)
  rw [← Multiset.coe_eq_coe.mpr hperm, ← Multiset.cons_coe, Multiset.add_cons] at heq
  rw [← Multiset.cons_add] at heq
  exact (add_right_cancel heq).symm

/-- A track is there as before when only clips of a track were exchanged. -/
theorem trackOf_setClips (h : placeOf doc id = .ok place) (clips : List Clip) {target : TrackId}
    {found : Track} (htarget : trackOf doc target = .ok found) :
    ∃ found', trackOf (place.setClips doc clips) target = .ok found' := by
  obtain ⟨htrack, -, -⟩ := placeOf_ok h
  have hids : (place.setClips doc clips).tracks.map Track.id = doc.tracks.map Track.id := by
    rw [Place.setClips, map_set]
    refine ext_getElem? fun index => ?_
    rw [getElem?_set]
    by_cases heq : place.trackIndex = index
    · subst heq
      obtain ⟨hlt, -⟩ := List.getElem?_eq_some_iff.mp htrack
      rw [if_pos rfl, if_pos (by simpa using hlt), getElem?_map, htrack]
      rfl
    · rw [if_neg heq]
  have hmem : target ∈ doc.tracks.map Track.id := by
    have hfind := okOr_eq_ok.mp htarget
    have hid : found.id = target := by simpa using find?_some hfind
    exact hid ▸ mem_map_of_mem (mem_of_find?_eq_some hfind)
  rw [← hids] at hmem
  obtain ⟨other, hother, hid⟩ := mem_map.mp hmem
  have hsome : ((place.setClips doc clips).tracks.find? fun track => track.id = target).isSome :=
    find?_isSome.mpr ⟨other, hother, by simpa using hid⟩
  obtain ⟨found', hfound'⟩ := Option.isSome_iff_exists.mp hsome
  exact ⟨found', okOr_eq_ok.mpr hfound'⟩

/-- A moved clip is the same clip. -/
theorem moveClip_kept (clip : ClipId) (target : TrackId) (at_ : TimeCode) :
    Returns (Kept doc) (moveClip doc clip target at_) := by
  refine .bind fun _ _ => .bind fun place hplace => .bind fun found hfound => .bind fun _ _ => .ok ?_
  obtain ⟨found', hfound'⟩ := trackOf_setClips hplace (place.track.clips.eraseIdx place.clipIndex) hfound
  have hinsert := insertClip_gains hfound' { place.clip with timelineStart := at_ }
  have hremove := remove_gains hplace
  refine ⟨hinsert.mediaPool.trans hremove.mediaPool.symm, ?_⟩
  rw [hremove.identities]
  exact hinsert.identities

/-! ## Splitting -/

theorem identity_splitLeft (original : Clip) (boundary offset : TimeCode) :
    identity (splitLeft original boundary offset) = identity original := by
  cases hcontent : original.content with
  | title title => simp [identity, splitLeft, hcontent, ClipContent.isMedia]
  | _ => simp [identity, splitLeft, hcontent]

theorem identity_splitRight (original : Clip) (id : ClipId) (boundary at_ stop : TimeCode) :
    Returns (identity · = { identity original with id }) (splitRight original id boundary at_ stop) := by
  unfold splitRight
  cases hcontent : original.content with
  | title title =>
    refine .bind fun content hright => .ok ?_
    simp [identity, hcontent, ClipContent.isMedia]
  | _ => exact .ok (by simp [identity, hcontent])

theorem splitClips_identities {clips' : List Clip} {clipIndex : ℕ} {original left right : Clip}
    (horiginal : clips[clipIndex]? = some original) (hleft : identity left = identity original)
    (h : doc.splitClips clips clipIndex left right = .ok clips') :
    (clips'.map identity).Perm (clips.map identity ++ [identity right]) := by
  rw [Document.splitClips, bind_eq_ok] at h
  obtain ⟨leftIndex, -, h⟩ := h
  obtain ⟨found, hfound, h⟩ := bind_eq_ok.mp h
  obtain ⟨survived, hsurvived, h⟩ := bind_eq_ok.mp h
  obtain rfl := ok.inj h
  rw [map_identity_set (okOr_eq_ok.mp hfound) (identity_surviveClipEdit _ hsurvived)]
  refine ((perm_insertionSort Clip.le _).map identity).trans ?_
  rw [map_append, map_identity_set horiginal hleft]
  rfl

/-- A split makes one clip, of the asset and the kind of the one that is split. -/
theorem splitClip_gains {clip : ClipId} {at_ : TimeCode} (h : splitClip doc clip at_ = .ok after) :
    ∃ original ∈ doc.clips, original.id = clip ∧ ∃ id, doc.nextClipId = .ok id ∧
      Gains doc after { identity original with id } := by
  rw [splitClip, bind_eq_ok] at h
  obtain ⟨⟨trackIndex, clipIndex⟩, hfound, h⟩ := h
  obtain ⟨track, htrack, h⟩ := bind_eq_ok.mp h
  obtain ⟨original, horiginal, h⟩ := bind_eq_ok.mp h
  obtain ⟨stop, -, h⟩ := bind_eq_ok.mp h
  rw [unless_eq_ok, bind_eq_ok] at h
  obtain ⟨-, offset, -, h⟩ := h
  obtain ⟨boundary, -, h⟩ := bind_eq_ok.mp h
  obtain ⟨id, hid, h⟩ := bind_eq_ok.mp h
  obtain ⟨right, hright, h⟩ := bind_eq_ok.mp h
  obtain ⟨survived, hsurvived, h⟩ := bind_eq_ok.mp h
  obtain ⟨clips, hclips, h⟩ := bind_eq_ok.mp h
  obtain rfl := ok.inj h
  rw [okOr_eq_ok] at hfound htrack horiginal
  obtain ⟨track', clip', htrack', hclip', hclipId⟩ := findClip_ok hfound
  obtain rfl := Option.some.inj (htrack'.symm.trans htrack)
  obtain rfl := Option.some.inj (hclip'.symm.trans horiginal)
  have hmem := mem_clips (mem_of_getElem? htrack) (mem_of_getElem? horiginal)
  refine ⟨clip', hmem, hclipId, id, hid, rfl, ?_⟩
  have hperm := splitClips_identities horiginal (identity_splitLeft clip' boundary offset) hclips
  have hrightId : identity survived = { identity clip' with id } :=
    (identity_surviveClipEdit _ hsurvived).trans (identity_splitRight _ _ _ _ _ _ hright)
  rw [hrightId] at hperm
  have hset := flatMap_set_perm (f := fun track : Track => track.clips.map identity)
    { track' with clips } htrack
  exact identities_of_perm hset hperm

end Kinewright.Edits
