import Kinewright.Model.Footage
import Kinewright.Edits.Frames

/-!
# The steps of an operation

Whatever an operation does to clips, it does in steps that make a clip, remove clips, bind a clip to another
asset, or leave every clip what it is.
-/

namespace Kinewright.Edits

open Fallible Model Except
open List hiding all

/-! ## Kinds of steps -/

/-- The colour of an asset, and what it was assumed over. -/
structure Coloring where
  description : ColorDescription
  assumedFrom : Option ColorDescription
deriving DecidableEq

def coloring (asset : MediaAsset) : Coloring where
  description := asset.colorDescription
  assumedFrom := asset.assumedFrom

/-- The assets are still there, of the kinds they were of. -/
def KindsKept (doc after : Document) : Prop :=
  ∀ id media, doc.asset id = some media → ∃ media', after.asset id = some media' ∧ media'.kind = media.kind

/-- The assets are still there, in the colours they were in. -/
def ColorsKept (doc after : Document) : Prop :=
  ∀ id media, doc.asset id = some media → ∃ media', after.asset id = some media' ∧ coloring media' = coloring media

/-- The asset is no still, or a clip of media is bound to it already. -/
def MayBind (doc : Document) (asset : AssetId) : Prop :=
  (∃ clip ∈ identities doc.tracks, clip.isMedia = true ∧ clip.asset = asset) ∨
    ∃ media, doc.asset asset = some media ∧ media.kind ≠ .image

/-- What not every operation does. -/
structure Allowed where
  /-- A clip is bound to the asset without a look at its kind. -/
  binds : Document → AssetId → Prop
  /-- A colour is written. -/
  recolors : Prop
  /-- A clip is made. -/
  makes : Prop
  /-- Clips are removed. -/
  removes : Prop

/-- A step of an operation. -/
inductive Step (allowed : Allowed) (draft : Draft) : Draft → Prop
  | keep {doc : Document} (hkinds : KindsKept draft.doc doc) (hcolors : ColorsKept draft.doc doc)
      (hkept : identities doc.tracks = identities draft.doc.tracks) :
      Step allowed draft { draft with doc }
  | recolor {doc : Document} (hkinds : KindsKept draft.doc doc)
      (hkept : identities doc.tracks = identities draft.doc.tracks) (hrecolors : allowed.recolors) :
      Step allowed draft { draft with doc }
  | make {doc : Document} (made : Identity) (hid : draft.doc.nextClipId = .ok made.id)
      (hgains : Gains draft.doc doc made) (hbinds : made.isMedia = true → MayBind draft.doc made.asset)
      (hmakes : allowed.makes) :
      Step allowed draft { doc, events := draft.events ++ [.made made.id] }
  | remove {doc : Document} (removed : List Identity) (hpool : doc.mediaPool = draft.doc.mediaPool)
      (hloses : identities draft.doc.tracks = ↑removed + identities doc.tracks) (hremoves : allowed.removes) :
      Step allowed draft { doc, events := draft.events ++ removed.map fun clip => .removed clip.id }
  | rebind {doc : Document} (id : ClipId) (old asset : AssetId) (others : Multiset Identity)
      (hpool : doc.mediaPool = draft.doc.mediaPool) (hasset : (draft.doc.asset asset).isSome)
      (hbefore : identities draft.doc.tracks = ⟨id, old, true⟩ ::ₘ others)
      (hafter : identities doc.tracks = ⟨id, asset, true⟩ ::ₘ others)
      (hbinds : allowed.binds draft.doc asset) : Step allowed draft { draft with doc }

/-- Steps, one after the other. -/
abbrev Steps (allowed : Allowed) : Draft → Draft → Prop := Relation.ReflTransGen (Step allowed)

variable {allowed : Allowed} {draft next : Draft} {doc after : Document}

section

variable (hpool : after.mediaPool = doc.mediaPool)

include hpool

theorem asset_of_eq (id : AssetId) : after.asset id = doc.asset id := by rw [Document.asset, hpool, Document.asset]

theorem kindsKept_of_eq : KindsKept doc after := fun id media h => ⟨media, (asset_of_eq hpool id).trans h, rfl⟩

theorem colorsKept_of_eq : ColorsKept doc after := fun id media h => ⟨media, (asset_of_eq hpool id).trans h, rfl⟩

end

variable {edit : Document → Except OpError Document}

theorem steps_keep (h : draft.keep edit = .ok next) (hkept : Returns (Kept draft.doc) (edit draft.doc)) :
    Steps allowed draft next := by
  rw [Draft.keep, bind_eq_ok] at h
  obtain ⟨doc, hdoc, h⟩ := h
  obtain rfl := ok.inj h
  have hkept := hkept doc hdoc
  exact .single (.keep (kindsKept_of_eq hkept.mediaPool) (colorsKept_of_eq hkept.mediaPool) hkept.identities)

variable {asset : AssetId}

/-- An edit that makes a clip with the next id. -/
theorem steps_make {isMedia : Bool} (hmakes : allowed.makes)
    (hgains : Returns (fun after => ∃ id, draft.doc.nextClipId = .ok id ∧ Gains draft.doc after ⟨id, asset, isMedia⟩)
      (edit draft.doc)) (hbinds : isMedia = true → MayBind draft.doc asset) (h : draft.make edit = .ok next) :
    Steps allowed draft next := by
  rw [Draft.make, bind_eq_ok] at h
  obtain ⟨doc, hdoc, h⟩ := h
  obtain ⟨id, hid, h⟩ := bind_eq_ok.mp h
  obtain rfl := ok.inj h
  obtain ⟨id', hid', hgains⟩ := hgains doc hdoc
  obtain rfl := ok.inj (hid'.symm.trans hid)
  exact .single (.make ⟨id', asset, isMedia⟩ hid' hgains hbinds hmakes)

/-- A span binds nothing. -/
theorem steps_makeSpan (hmakes : allowed.makes)
    (hgains : Returns (fun after => ∃ id, draft.doc.nextClipId = .ok id ∧ Gains draft.doc after ⟨id, asset, false⟩)
      (edit draft.doc)) (h : draft.make edit = .ok next) : Steps allowed draft next :=
  steps_make hmakes hgains nofun h

theorem steps_each {α : Type} {step : Draft → α → Except OpError Draft} {as : List α}
    (hstep : ∀ draft a next, a ∈ as → step draft a = .ok next → Steps allowed draft next)
    (h : Draft.each step draft as = .ok next) : Steps allowed draft next := by
  induction as generalizing draft with
  | nil =>
    obtain rfl := ok.inj h
    exact .refl
  | cons a as ih =>
    rw [Draft.each, bind_eq_ok] at h
    obtain ⟨middle, hmiddle, h⟩ := h
    have hfirst := hstep draft a middle mem_cons_self hmiddle
    have hrest := ih (fun draft b next hb => hstep draft b next (mem_cons_of_mem a hb)) h
    exact hfirst.trans hrest

/-! ## Edits that make a clip -/

theorem mem_identities {clip : Clip} (hclip : clip ∈ doc.clips) : identity clip ∈ identities doc.tracks := by
  rw [Document.clips, mem_flatMap] at hclip
  obtain ⟨track, htrack, hclip⟩ := hclip
  exact mem_flatMap.mpr ⟨track, htrack, mem_map_of_mem hclip⟩

theorem mem_identities_iff {found : Identity} :
    found ∈ identities doc.tracks ↔ ∃ clip ∈ doc.clips, identity clip = found := by
  rw [identities, Multiset.mem_coe, mem_flatMap]
  constructor
  · rintro ⟨track, htrack, hfound⟩
    obtain ⟨clip, hclip, heq⟩ := mem_map.mp hfound
    exact ⟨clip, mem_clips htrack hclip, heq⟩
  · rintro ⟨clip, hclip, rfl⟩
    obtain ⟨track, htrack, hclip⟩ := mem_flatMap.mp hclip
    exact ⟨track, htrack, mem_map_of_mem hclip⟩

variable {clip : ClipId} {at_ : TimeCode}

theorem steps_split (hmakes : allowed.makes) (h : draft.split clip at_ = .ok next) : Steps allowed draft next := by
  rw [Draft.split, Draft.make, bind_eq_ok] at h
  obtain ⟨doc, hdoc, h⟩ := h
  obtain ⟨id, hid, h⟩ := bind_eq_ok.mp h
  obtain rfl := ok.inj h
  obtain ⟨original, hmem, -, id', hid', hgains⟩ := splitClip_gains hdoc
  obtain rfl := ok.inj (hid'.symm.trans hid)
  have hbinds : (identity original).isMedia = true → MayBind draft.doc original.asset :=
    fun hmedia => .inl ⟨identity original, mem_identities hmem, hmedia, rfl⟩
  exact .single (.make { identity original with id := id' } hid' hgains hbinds hmakes)

/-- `add_clip` takes no still. -/
theorem addClip_gains (track : TrackId) (asset : AssetId) (at_ : TimeCode) (source : FrameRange) :
    Returns (fun after => MayBind doc asset ∧ ∃ id, doc.nextClipId = .ok id ∧ Gains doc after ⟨id, asset, true⟩)
      (addClip doc track asset at_ source) := by
  refine .bind fun _ _ => .bind fun media hmedia => .bind fun _ hstill => .bind fun _ _ => ?_
  refine .bind fun found hfound => .bind fun _ _ => .bind fun id hid => .ok ⟨?_, id, hid, ?_⟩
  · exact .inr ⟨media, okOr_eq_ok.mp hmedia, refuse_eq_ok.mp hstill⟩
  · exact insertClip_gains hfound (newClip id asset source .media at_ [])

variable {track : TrackId} {source : FrameRange}

theorem steps_add (hmakes : allowed.makes) (h : draft.add track asset at_ source = .ok next) :
    Steps allowed draft next := by
  have hmake := h
  rw [Draft.add, Draft.make, bind_eq_ok] at h
  obtain ⟨doc, hdoc, -⟩ := h
  have hbinds := (addClip_gains track asset at_ source doc hdoc).1
  exact steps_make hmakes ((addClip_gains track asset at_ source).imp fun _ hadded => hadded.2) (fun _ => hbinds) hmake

theorem addTitle_gains (track : TrackId) (at_ duration : TimeCode) (title : Title) :
    Returns (fun after => ∃ id, doc.nextClipId = .ok id ∧ Gains doc after ⟨id, 0, false⟩)
      (addTitle doc track at_ duration title) := by
  refine .bind fun _ _ => .bind fun _ _ => .bind fun found hfound => .bind fun _ _ => ?_
  refine .bind fun id hid => .bind fun _ _ => .ok ⟨id, hid, ?_⟩
  exact insertClip_gains hfound
    (newClip id 0 { start := 0, stop := duration } (.title title) at_ [])

theorem addFreezeFrame_gains (track : TrackId) (at_ duration : TimeCode) (asset : AssetId) (sourceFrame : TimeCode) :
    Returns (fun after => ∃ id, doc.nextClipId = .ok id ∧ Gains doc after ⟨id, asset, false⟩)
      (addFreezeFrame doc track at_ duration asset sourceFrame) := by
  refine .bind fun _ _ => .bind fun _ _ => .bind fun found hfound => .bind fun _ _ => ?_
  refine .bind fun _ _ => .bind fun _ _ => .bind fun _ _ => .bind fun id hid => .ok ⟨id, hid, ?_⟩
  exact insertClip_gains hfound
    (newClip id asset { start := 0, stop := duration } (.freeze sourceFrame) at_ [])

theorem addGeneratedClip_gains (track : TrackId) (timelineStart duration : TimeCode)
    {content : ClipContent} (effects : List Effect) (hcontent : content.isMedia = false) :
    Returns (fun after => ∃ id, doc.nextClipId = .ok id ∧ Gains doc after ⟨id, 0, false⟩)
      (addGeneratedClip doc track timelineStart duration content effects) := by
  refine .bind fun found hfound => .bind fun _ _ => .bind fun _ _ => .bind fun _ _ => ?_
  refine .bind fun _ _ => .bind fun id hid => .ok ⟨id, hid, ?_⟩
  rw [← hcontent]
  exact insertClip_gains hfound
    (newClip id 0 { start := 0, stop := duration } content timelineStart effects)

/-! ## Edits that remove clips -/

theorem steps_remove (hremoves : allowed.removes)
    (hedit : Returns (fun after => ∃ lost : Identity, lost.id = clip ∧ Gains after draft.doc lost)
      (edit draft.doc)) (h : draft.remove clip edit = .ok next) : Steps allowed draft next := by
  rw [Draft.remove, bind_eq_ok] at h
  obtain ⟨doc, hdoc, h⟩ := h
  obtain rfl := ok.inj h
  obtain ⟨lost, rfl, hloses⟩ := hedit doc hdoc
  refine .single (.remove [lost] hloses.mediaPool.symm ?_ hremoves)
  rw [hloses.identities, Multiset.coe_singleton, Multiset.singleton_add]

theorem deleteClip_loses (clip : ClipId) :
    Returns (fun after => ∃ lost : Identity, lost.id = clip ∧ Gains after doc lost) (deleteClip doc clip) :=
  .bind fun place hplace => .ok ⟨identity place.clip, (placeOf_ok hplace).2.2, remove_gains hplace⟩

theorem rippleDeleteClip_loses (clip : ClipId) :
    Returns (fun after => ∃ lost : Identity, lost.id = clip ∧ Gains after doc lost) (rippleDeleteClip doc clip) := by
  refine .bind fun place hplace => .bind fun _ _ => .bind fun _ _ => .bind fun tracks htracks => ?_
  refine .bind fun _ _ => .ok ⟨identity place.clip, (placeOf_ok hplace).2.2, ?_⟩
  have hremove := remove_gains hplace
  refine ⟨hremove.mediaPool, ?_⟩
  have hshift := editTracks_identity (identity_shiftClip _ _ _) htracks
  rw [hremove.identities]
  exact congrArg (fun all : List Identity => identity place.clip ::ₘ (all : Multiset Identity)) hshift.symm

/-- A track that is removed takes its clips along. -/
theorem steps_removeTrack (hremoves : allowed.removes) (h : draft.removeTrack track = .ok next) :
    Steps allowed draft next := by
  rw [Draft.removeTrack, bind_eq_ok] at h
  obtain ⟨found, hfound, h⟩ := h
  obtain ⟨doc, hdoc, h⟩ := bind_eq_ok.mp h
  obtain rfl := ok.inj h
  rw [removeTrack, bind_eq_ok] at hdoc
  obtain ⟨tracks, htracks, hdoc⟩ := hdoc
  obtain rfl := ok.inj hdoc
  rw [removeFirst] at htracks
  split at htracks
  · obtain rfl := ok.inj htracks
    have hloses : identities draft.doc.tracks
        = ↑(found.clips.map identity) + identities (draft.doc.tracks.eraseP fun track' => track'.id = track) := by
      have hfind := okOr_eq_ok.mp hfound
      have hperm := flatMap_eraseP_perm (f := fun track : Track => track.clips.map identity) hfind
      exact Multiset.coe_eq_coe.mpr hperm
    have hevents : found.clips.map (fun clip => ClipEvent.removed clip.id)
        = (found.clips.map identity).map fun lost => .removed lost.id := by
      rw [map_map]
      rfl
    rw [hevents]
    exact .single (.remove _ rfl hloses hremoves)
  · cases htracks

/-! ## Edits of the pool -/

variable {id : AssetId}

theorem find?_append_kind {pool : List MediaAsset} {asset : MediaAsset} {media : MediaAsset}
    (h : pool.find? (fun other => other.id = id) = some media) :
    (pool ++ [asset]).find? (fun other => other.id = id) = some media := by
  rw [find?_append, h]
  rfl

/-- A change of an asset that keeps its id, and what is asked of it. -/
theorem asset_modifyFirst {β : Type} (key : MediaAsset → β) {edit : MediaAsset → MediaAsset}
    (hpool : after.mediaPool = doc.mediaPool.modifyFirst (fun asset => asset.id = id) edit)
    (hid : ∀ asset, (edit asset).id = asset.id) (hkey : ∀ asset, key (edit asset) = key asset)
    {other : AssetId} {media : MediaAsset} (h : doc.asset other = some media) :
    ∃ media', after.asset other = some media' ∧ key media' = key media := by
  rw [Document.asset] at h ⊢
  rw [hpool, find?_modifyFirst_key hid, h]
  refine ⟨_, rfl, ?_⟩
  split
  · exact hkey media
  · rfl

theorem kindsKept_modifyFirst {edit : MediaAsset → MediaAsset}
    (hpool : after.mediaPool = doc.mediaPool.modifyFirst (fun asset => asset.id = id) edit)
    (hid : ∀ asset, (edit asset).id = asset.id) (hkind : ∀ asset, (edit asset).kind = asset.kind) :
    KindsKept doc after := fun _ _ => asset_modifyFirst MediaAsset.kind hpool hid hkind

theorem colorsKept_modifyFirst {edit : MediaAsset → MediaAsset}
    (hpool : after.mediaPool = doc.mediaPool.modifyFirst (fun asset => asset.id = id) edit)
    (hid : ∀ asset, (edit asset).id = asset.id) (hcolor : ∀ asset, coloring (edit asset) = coloring asset) :
    ColorsKept doc after := fun _ _ => asset_modifyFirst coloring hpool hid hcolor

/-- The step of an edit that leaves the clips what they are, and the assets in their colours. -/
theorem steps_pool (hkept : Returns (fun after => KindsKept draft.doc after ∧ ColorsKept draft.doc after ∧
      identities after.tracks = identities draft.doc.tracks) (edit draft.doc))
    (h : draft.keep edit = .ok next) : Steps allowed draft next := by
  rw [Draft.keep, bind_eq_ok] at h
  obtain ⟨doc, hdoc, h⟩ := h
  obtain rfl := ok.inj h
  obtain ⟨hkinds, hcolors, hsame⟩ := hkept doc hdoc
  exact .single (.keep hkinds hcolors hsame)

theorem addAsset_kept (asset : MediaAsset) : Returns (fun after => KindsKept doc after ∧ ColorsKept doc after ∧
      identities after.tracks = identities doc.tracks) (addAsset doc asset) := by
  refine .bind fun _ _ => .bind fun _ _ => .bind fun _ _ => .bind fun _ _ => .ok ⟨?_, ?_, rfl⟩
  all_goals exact fun id media h => ⟨media, find?_append_kind h, rfl⟩

theorem identity_relinkClip (before after : Document) (id : AssetId) (clip : Clip) :
    Returns (identity · = identity clip) (relinkClip before after id clip) := by
  refine .ite (fun _ => .bind fun _ _ => .bind fun _ _ => ?_) fun _ => .ok rfl
  exact .ite (fun _ => .ok rfl) fun _ => identity_surviveClipEdit

theorem relinkAsset_kept (id : AssetId) (candidate : RelinkCandidate) (allowUnverifiedSource : Bool) :
    Returns (fun after => KindsKept doc after ∧ ColorsKept doc after ∧ identities after.tracks = identities doc.tracks)
      (relinkAsset doc id candidate allowUnverifiedSource) := by
  refine .bind fun _ _ => .bind fun _ _ => .bind fun tracks htracks => .ok ⟨?_, ?_, ?_⟩
  · exact kindsKept_modifyFirst rfl (fun _ => rfl) fun _ => rfl
  · exact colorsKept_modifyFirst rfl (fun _ => rfl) fun _ => rfl
  · exact congrArg (fun all : List Identity => (all : Multiset Identity))
      (editTracks_identity (fun _ => identity_relinkClip _ _ id) htracks)

/-- The step that writes a colour. -/
theorem steps_recolor {description : ColorDescription} (hrecolors : allowed.recolors)
    (h : draft.keep (setAssetColorDescription · id description) = .ok next) : Steps allowed draft next := by
  rw [Draft.keep, bind_eq_ok] at h
  obtain ⟨doc, hdoc, h⟩ := h
  obtain rfl := ok.inj h
  simp only [setAssetColorDescription, bind_eq_ok, ok.injEq] at hdoc
  obtain ⟨_, -, _, -, _, -, _, -, rfl⟩ := hdoc
  refine .single (.recolor ?_ rfl hrecolors)
  exact kindsKept_modifyFirst rfl (fun _ => rfl) fun _ => rfl

/-! ## Binding a clip anew -/

/-- `replace_clip` binds a clip of media to the asset. -/
theorem replaceClip_rebinds {fitToFill : Bool} (h : replaceClip doc clip asset source fitToFill = .ok after) :
    after.mediaPool = doc.mediaPool ∧ (doc.asset asset).isSome ∧ ∃ old others,
      identities doc.tracks = ⟨clip, old, true⟩ ::ₘ others ∧
        identities after.tracks = ⟨clip, asset, true⟩ ::ₘ others := by
  rw [replaceClip, editClip, bind_eq_ok] at h
  obtain ⟨place, hplace, h⟩ := h
  obtain ⟨edited, hedited, h⟩ := bind_eq_ok.mp h
  obtain rfl := ok.inj h
  obtain ⟨⟨⟩, hmedia, hedited⟩ := bind_eq_ok.mp hedited
  obtain ⟨-, hat, hid⟩ := placeOf_ok hplace
  have hasset : (doc.asset asset).isSome ∧ identity edited = ⟨clip, asset, true⟩ := by
    simp only [bind_eq_ok, ok.injEq] at hedited
    obtain ⟨_, -, media, hmedia, _, -, _, -, _, -, rfl⟩ := hedited
    refine ⟨Option.isSome_of_eq_some (okOr_eq_ok.mp hmedia), ?_⟩
    rw [← hid]
    rfl
  obtain ⟨hasset, hedited⟩ := hasset
  have hisMedia : place.clip.content.isMedia = true := by simpa using hmedia
  have hremove := remove_gains hplace
  refine ⟨rfl, hasset, place.clip.asset, identities (place.remove doc).tracks, ?_, ?_⟩
  · rw [hremove.identities, identity, hid, hisMedia]
  · obtain ⟨hlt, -⟩ := List.getElem?_eq_some_iff.mp hat
    have hset := (set_perm_cons_eraseIdx hlt edited).map identity
    rw [map_cons, hedited] at hset
    have hclips := identities_setClips hplace (place.track.clips.set place.clipIndex edited)
    have herase := identities_setClips hplace (place.track.clips.eraseIdx place.clipIndex)
    rw [Multiset.coe_eq_coe.mpr hset, ← Multiset.cons_coe, Multiset.add_cons, ← herase] at hclips
    exact add_right_cancel hclips

/-! ## Every operation -/

/-- The asset that the operation binds a clip of media to without looking at its kind. -/
def Operation.rebinds : Operation → Option AssetId
  | .replaceClip _ asset _ => some asset
  | .fitToFill _ asset _ => some asset
  | _ => none

/-- The operation writes the colour of an asset. -/
def Operation.recolors : Operation → Prop
  | .setAssetColorDescription _ _ => True
  | _ => False

/-- The operation makes clips. -/
def Operation.makes : Operation → Prop
  | .addClip _ _ _ _ | .addTitle _ _ _ _ | .addFreezeFrame _ _ _ _ _ | .addAdjustmentClip _ _ _ _
  | .addSolidClip _ _ _ _ | .splitClip _ _ | .threePointEdit _ _ _ _ | .patchedThreePointEdit _ _ _ _ => True
  | _ => False

/-- The operation removes clips. -/
def Operation.removes : Operation → Prop
  | .removeTrack _ | .deleteClip _ | .rippleDeleteClip _ => True
  | .threePointEdit _ _ _ mode | .patchedThreePointEdit _ _ mode _ => mode = .overwrite
  | _ => False

theorem steps_replace {fitToFill : Bool} (hbinds : allowed.binds draft.doc asset)
    (h : draft.keep (replaceClip · clip asset source fitToFill) = .ok next) :
    Steps allowed draft next := by
  rw [Draft.keep, bind_eq_ok] at h
  obtain ⟨doc, hdoc, h⟩ := h
  obtain rfl := ok.inj h
  obtain ⟨hpool, hasset, old, others, hbefore, hafter⟩ := replaceClip_rebinds hdoc
  exact .single (.rebind clip old asset others hpool hasset hbefore hafter hbinds)

theorem steps_splitTrack (hmakes : allowed.makes) (h : splitTrack track draft at_ = .ok next) :
    Steps allowed draft next := by
  rw [splitTrack, bind_eq_ok] at h
  obtain ⟨found, -, h⟩ := h
  split at h
  · exact steps_split hmakes h
  · obtain rfl := ok.inj h
    exact .refl

theorem steps_delete (hremoves : allowed.removes) (h : draft.delete clip = .ok next) : Steps allowed draft next :=
  steps_remove hremoves (deleteClip_loses clip) h

theorem steps_clearTrackRange {range : FrameRange} (hmakes : allowed.makes)
    (hremoves : allowed.removes) (h : clearTrackRange range draft track = .ok next) :
    Steps allowed draft next := by
  rw [clearTrackRange, bind_eq_ok] at h
  obtain ⟨split, hsplit, h⟩ := h
  obtain ⟨found, -, h⟩ := bind_eq_ok.mp h
  have hfirst : Steps allowed draft split := steps_each (fun _ _ _ _ => steps_splitTrack hmakes) hsplit
  exact hfirst.trans (steps_each (fun _ _ _ _ => steps_delete hremoves) h)

variable {mode : ThreePointMode}

theorem steps_makeRoom {targets : List TrackId} {timeline : FrameRange} {duration : TimeCode}
    (hmakes : allowed.makes) (hremoves : mode = .overwrite → allowed.removes)
    (h : makeRoom draft targets timeline duration mode = .ok next) :
    Steps allowed draft next := by
  cases mode with
  | insert =>
    rw [makeRoom, insertTime, bind_eq_ok] at h
    obtain ⟨split, hsplit, h⟩ := h
    have hfirst : Steps allowed draft split := steps_each (fun _ _ _ _ => steps_split hmakes) hsplit
    exact hfirst.trans (steps_keep h (rippleInsertGapForTracks_kept _ _ _))
  | overwrite => exact steps_each (fun _ _ _ _ => steps_clearTrackRange hmakes (hremoves rfl)) h

theorem steps_threePointEdit {marks : Marks} (hmakes : allowed.makes) (hremoves : mode = .overwrite → allowed.removes)
    (h : threePointEdit draft track asset marks mode = .ok next) : Steps allowed draft next := by
  rw [threePointEdit] at h
  simp only [bind_eq_ok] at h
  obtain ⟨_, -, _, -, _, -, _, -, _, -, _, -, room, hroom, h⟩ := h
  exact (steps_makeRoom hmakes hremoves hroom).trans (steps_add hmakes h)

theorem steps_addEach {tracks : List TrackId} {ids : List ClipId} (hmakes : allowed.makes)
    (h : addEach asset at_ source draft tracks = .ok (next, ids)) :
    Steps allowed draft next := by
  induction tracks generalizing draft ids with
  | nil =>
    obtain ⟨rfl, -⟩ := Prod.mk.inj (ok.inj h)
    exact .refl
  | cons track tracks ih =>
    rw [addEach, bind_eq_ok] at h
    obtain ⟨id, -, h⟩ := h
    obtain ⟨added, hadded, h⟩ := bind_eq_ok.mp h
    obtain ⟨⟨last, rest⟩, hrest, h⟩ := bind_eq_ok.mp h
    obtain ⟨rfl, -⟩ := Prod.mk.inj (ok.inj h)
    exact (steps_add hmakes hadded).trans (ih hrest)

theorem steps_linkPair {clips : List ClipId} (h : linkPair draft clips = .ok next) : Steps allowed draft next := by
  rw [linkPair] at h
  split at h
  · exact steps_keep h (linkClips_kept clips)
  · obtain rfl := ok.inj h
    exact .refl

theorem steps_patchedThreePointEdit {marks : Marks} {routes : Routes} (hmakes : allowed.makes)
    (hremoves : mode = .overwrite → allowed.removes)
    (h : patchedThreePointEdit draft asset marks mode routes = .ok next) :
    Steps allowed draft next := by
  rw [patchedThreePointEdit] at h
  simp only [bind_eq_ok] at h
  obtain ⟨_, -, _, -, _, -, _, -, _, -, room, hroom, ⟨added, ids⟩, hadded, h⟩ := h
  exact ((steps_makeRoom hmakes hremoves hroom).trans (steps_addEach hmakes hadded)).trans (steps_linkPair h)

variable {operation : Operation}

/-- An operation is made of steps, one kind of edit after the other. -/
theorem steps_edit (hbinds : ∀ asset ∈ operation.rebinds, allowed.binds draft.doc asset)
    (hrecolors : operation.recolors → allowed.recolors) (hmakes : operation.makes → allowed.makes)
    (hremoves : operation.removes → allowed.removes) (h : operation.edit draft = .ok next) :
    Steps allowed draft next := by
  unfold Operation.edit at h
  cases operation with
  | addAsset asset => exact steps_pool (addAsset_kept asset) h
  | relinkAsset asset candidate allow => exact steps_pool (relinkAsset_kept asset candidate allow) h
  | setAssetColorDescription asset description => exact steps_recolor (hrecolors trivial) h
  | setColorContext context | removeStringOut stringOut | removeSyncGroup group | upsertAudioBus bus
  | removeAudioBus bus | setAudioMaster master | removeMarker marker =>
    exact steps_keep h (.bind fun _ _ => .ok (.of_eq rfl rfl))
  | upsertBin bin | upsertStringOut stringOut | upsertSyncGroup group | setPanLaw law =>
    exact steps_keep h (.ok (.of_eq rfl rfl))
  | removeBin bin | setAssetBin asset bin | addMarker marker | addLutAsset asset =>
    exact steps_keep h (.bind fun _ _ => .bind fun _ _ => .ok (.of_eq rfl rfl))
  | addTrack track => exact steps_keep h (addTrack_kept track)
  | removeTrack track => exact steps_removeTrack (hremoves trivial) h
  | setTrackSyncLock track locked => exact steps_keep h (setTrackSyncLock_kept track locked)
  | setTrackMix track gain pan mute solo => exact steps_keep h (.bind fun _ _ => storeTrackMix_kept _)
  | setTrackAutomation track parameter curve =>
    exact steps_keep h (.bind fun _ _ => .bind fun _ _ => storeTrackMix_kept _)
  | addClip track asset at_ source => exact steps_add (hmakes trivial) h
  | addTitle track at_ duration title => exact steps_makeSpan (hmakes trivial) (addTitle_gains track at_ duration title) h
  | splitClip clip at_ => exact steps_split (hmakes trivial) h
  | trimClip clip newSource => exact steps_keep h (trimClip_kept clip newSource)
  | moveClip clip toTrack at_ => exact steps_keep h (moveClip_kept clip toTrack at_)
  | threePointEdit track asset marks mode => exact steps_threePointEdit (hmakes trivial) hremoves h
  | patchedThreePointEdit asset marks mode routes => exact steps_patchedThreePointEdit (hmakes trivial) hremoves h
  | slipClip clip newSourceIn => exact steps_keep h (slipClip_kept clip newSourceIn)
  | rollEdit leftClip rightClip at_ => exact steps_keep h (rollEdit_kept leftClip rightClip at_)
  | slideClip clip at_ => exact steps_keep h (slideClip_kept clip at_)
  | replaceClip clip asset source | fitToFill clip asset source => exact steps_replace (hbinds asset rfl) h
  | deleteClip clip => exact steps_delete (hremoves trivial) h
  | rippleDeleteClip clip => exact steps_remove (hremoves trivial) (rippleDeleteClip_loses clip) h
  | rippleInsertGap track at_ duration =>
    exact steps_keep h (rippleInsertGapForTracks_kept [track] at_ duration)
  | linkClips clips => exact steps_keep h (linkClips_kept clips)
  | unlinkClips clips => exact steps_keep h (.bind fun _ _ => .ok (setLink_kept _ _))
  | moveMarker marker at_ => exact steps_keep h (moveMarker_kept marker at_)
  | addEffect clip effect => exact steps_keep h (insertEffect_kept clip none _)
  | insertEffect clip index effect => exact steps_keep h (insertEffect_kept clip (some index) effect)
  | removeEffect clip effect | setClipEnabledCurve clip curve | removeTransition clip =>
    exact steps_keep h (editClip_kept fun _ _ => .bind fun _ _ => .ok rfl)
  | setEffectParam clip effect name value | clearEffectKeyframes clip effect name
  | removeEffectKeyframe clip effect name at_ | setEffectEnabled clip effect enabled =>
    exact steps_keep h (editClip_kept fun _ _ => editEffect_identity)
  | setEffectKeyframes clip effect name curve | upsertEffectKeyframe clip effect name key =>
    exact steps_keep h (editClip_kept fun _ _ => .bind fun _ _ => editEffect_identity)
  | setClipEnabled clip enabled | setClipBlendMode clip blendMode =>
    exact steps_keep h (editClip_kept fun _ _ => .ok rfl)
  | copyClipAttributes fromClip toClip names includeKeyframes =>
    exact steps_keep h (.bind fun _ _ => editClip_kept fun _ _ => .bind fun _ _ => .bind fun _ _ => .ok rfl)
  | convertLegacyLook clip effect lutAsset mix =>
    exact steps_keep h (convertLegacyLook_kept clip effect lutAsset mix)
  | removeLutAsset lutAsset => exact steps_keep h (removeLutAsset_kept lutAsset)
  | setTitleParam clip name value => exact steps_keep h (setTitleParam_kept clip name value)
  | setClipAudio clip gain fadeIn fadeOut | setClipGainEnvelope clip curve =>
    exact steps_keep h (editClip_kept fun _ _ => .bind fun _ _ => .bind fun _ _ => .bind fun _ _ => .ok rfl)
  | addTransition clip transition =>
    exact steps_keep h (editClip_kept fun _ _ => .bind fun _ _ => .bind fun _ _ => .ok rfl)
  | setMarkerParam marker name value => exact steps_keep h (editMarker_kept marker _)
  | addFreezeFrame track at_ duration asset sourceFrame =>
    exact steps_makeSpan (hmakes trivial) (addFreezeFrame_gains track at_ duration asset sourceFrame) h
  | setClipSpeed clip speedPercent =>
    exact steps_keep h (.bind fun _ _ => surviveEdit_kept fun _ _ => .bind fun _ _ => .ok rfl)
  | addAdjustmentClip track timelineStart duration effects =>
    exact steps_makeSpan (hmakes trivial) (addGeneratedClip_gains track timelineStart duration effects rfl) h
  | addSolidClip track timelineStart duration color =>
    exact steps_makeSpan (hmakes trivial) (addGeneratedClip_gains track timelineStart duration [] rfl) h
  | setSolidColor clip color => exact steps_keep h (setSolidColor_kept clip color)

/-- What an accepted operation is made of. -/
theorem step_ok (h : operation.step doc = .ok next) :
    ∃ edited, operation.draft doc = .ok edited ∧ edited.doc.recomputeDuration = .ok next.doc ∧
      edited.events = next.events ∧ next.doc.Valid := by
  rw [Operation.step, bind_eq_ok] at h
  obtain ⟨edited, hedited, h⟩ := h
  obtain ⟨candidate, hcandidate, h⟩ := bind_eq_ok.mp h
  obtain ⟨⟨⟩, hvalidate, h⟩ := bind_eq_ok.mp h
  obtain rfl := ok.inj h
  exact ⟨edited, hedited, hcandidate, rfl, Document.valid_iff.mpr hvalidate⟩

/-- What is recomputed and validated after an operation changes no clip. -/
theorem steps_step (hbinds : ∀ asset ∈ operation.rebinds, allowed.binds doc asset)
    (hrecolors : operation.recolors → allowed.recolors) (hmakes : operation.makes → allowed.makes)
    (hremoves : operation.removes → allowed.removes) (h : operation.step doc = .ok next) :
    Steps allowed { doc, events := [] } next := by
  obtain ⟨edited, hedited, hcandidate, hevents, -⟩ := step_ok h
  have hkept := recomputeDuration_kept next.doc hcandidate
  have hlast : Step allowed edited { edited with doc := next.doc } :=
    .keep (kindsKept_of_eq hkept.mediaPool) (colorsKept_of_eq hkept.mediaPool) hkept.identities
  rw [hevents] at hlast
  exact (steps_edit hbinds hrecolors hmakes hremoves hedited).tail hlast

end Kinewright.Edits
