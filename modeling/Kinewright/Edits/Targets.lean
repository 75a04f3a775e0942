import Kinewright.Edits.Tracks

/-!
# Clips on several tracks

`operation.rs`: a three-point edit makes room for a clip on each of its tracks and adds it there. Two clips that
are added together are linked.
-/

namespace Kinewright.Edits

open Fallible Model List

variable {doc middle after : Document} {draft next edited : Draft} {track : TrackId} {found : Track} {clip : Clip}
  {clips : List Clip} {ids : List ClipId} {targets : List TrackId} {asset : AssetId} {source : FrameRange}
  {at_ : TimeCode}

/-! ## What an edit of some tracks leaves -/

/-- Only the clips of the given tracks are others. -/
structure Elsewhere (targets : List TrackId) (doc after : Document) : Prop where
  rest : after = { doc with tracks := after.tracks }
  trackIds : after.tracks.map Track.id = doc.tracks.map Track.id
  others : ∀ track ∉ targets, trackOf after track = trackOf doc track

namespace Elsewhere

theorem refl (targets : List TrackId) (doc : Document) : Elsewhere targets doc doc := ⟨rfl, rfl, fun _ _ => rfl⟩

theorem trans {others : List TrackId} (h : Elsewhere targets doc middle) (h' : Elsewhere others middle after) :
    Elsewhere (targets ++ others) doc after := by
  refine ⟨?_, h'.trackIds.trans h.trackIds, fun track htrack => ?_⟩
  · rw [h'.rest, h.rest]
  · rw [mem_append, not_or] at htrack
    rw [h'.others track htrack.2, h.others track htrack.1]

theorem withClips (doc : Document) (track : TrackId) (clips : List Clip) :
    Elsewhere [track] doc (Edits.withClips doc track clips) := by
  refine ⟨rfl, ?_, fun other hother => trackOf_withClips_of_ne fun heq => hother (heq ▸ mem_singleton_self track)⟩
  rw [Edits.withClips, map_modifyFirst fun other _ => id_setClips clips other]

theorem clipEnd (h : Elsewhere targets doc after) : after.clipEnd = doc.clipEnd := by
  rw [h.rest]
  rfl

end Elsewhere

/-! ## Adding a clip on each track -/

theorem addClip_eq (h : addClip doc track asset at_ source = .ok after) :
    ∃ id found, doc.nextClipId = .ok id ∧ trackOf doc track = .ok found ∧
      after = withClips doc track ((found.clips ++ [newClip id asset source .media at_ []]).insertionSort Clip.le) := by
  simp only [addClip, bind_eq_ok, Except.ok.injEq] at h
  obtain ⟨_, -, media, -, _, -, _, -, found, hfound, _, -, id, hid, rfl⟩ := h
  exact ⟨id, found, hid, hfound, insertClip_eq hfound⟩

/-- A clip was added on each of the tracks, with new ids. -/
structure Placed (new : ClipId → Clip) (ids : List ClipId) (targets : List TrackId) (doc after : Document) : Prop where
  elsewhere : Elsewhere targets doc after
  fresh : ∀ id ∈ ids, id ∉ doc.clips.map Clip.id
  each : ∀ track ∈ targets, ∃ found, ∃ id ∈ ids, ∃ clips, trackOf doc track = .ok found ∧
    trackOf after track = .ok (setClips clips found) ∧ clips.Perm (new id :: found.clips)

theorem addEach_ok (hdistinct : Distinct draft.doc) (hnodup : targets.Nodup)
    (h : addEach asset at_ source draft targets = .ok (next, ids)) :
    Distinct next.doc ∧ ids.length = targets.length ∧
      Placed (fun id => newClip id asset source .media at_ []) ids targets draft.doc next.doc := by
  induction targets generalizing draft ids with
  | nil =>
    obtain ⟨rfl, rfl⟩ := Prod.mk.inj (Except.ok.inj h)
    exact ⟨hdistinct, rfl, .refl [] _, forall_mem_nil _, forall_mem_nil _⟩
  | cons track targets ih =>
    rw [addEach, bind_eq_ok] at h
    obtain ⟨id, hid, h⟩ := h
    obtain ⟨added, hadded, h⟩ := bind_eq_ok.mp h
    obtain ⟨⟨last, rest⟩, hrest, h⟩ := bind_eq_ok.mp h
    obtain ⟨rfl, rfl⟩ := Prod.mk.inj (Except.ok.inj h)
    rw [Draft.add, Draft.make, bind_eq_ok] at hadded
    obtain ⟨doc, hdoc, hadded⟩ := hadded
    obtain ⟨_, -, hadded⟩ := bind_eq_ok.mp hadded
    obtain rfl := Except.ok.inj hadded
    obtain ⟨id', found, hid', hfound, rfl⟩ := addClip_eq hdoc
    obtain rfl := Except.ok.inj (hid'.symm.trans hid)
    rw [nodup_cons] at hnodup
    let new := newClip id' asset source .media at_ []
    let clips := (found.clips ++ [new]).insertionSort Clip.le
    have hperm : clips.Perm (new :: found.clips) := (perm_insertionSort Clip.le _).trans perm_append_comm
    have hfresh : id' ∉ draft.doc.clips.map Clip.id := nextClipId_fresh hid
    have hids : ∀ id ∈ clips.map Clip.id, id = id' ∨ id ∈ found.clips.map Clip.id := fun id hid =>
      mem_cons.mp ((hperm.map Clip.id).mem_iff.mp hid)
    have hfreshOn : id' ∉ found.clips.map Clip.id := by
      intro hmem
      obtain ⟨clip, hclip, heq⟩ := mem_map.mp hmem
      exact hfresh (mem_map.mpr ⟨clip, mem_clips (mem_of_trackOf hfound) hclip, heq⟩)
    have hclips : (clips.map Clip.id).Nodup := by
      rw [(hperm.map Clip.id).nodup_iff]
      exact nodup_cons.mpr ⟨hfreshOn, hdistinct.clips_nodup hfound⟩
    have hdistinct' : Distinct (withClips draft.doc track clips) := by
      refine hdistinct.withClips hfound hclips fun other hother => ?_
      rcases hids other hother with rfl | hother
      · exact .inr hfresh
      · exact .inl hother
    obtain ⟨hlast, hlength, hplaced⟩ := ih hdistinct' hnodup.2 hrest
    have hkept : ∀ clip ∈ draft.doc.clips, clip ∈ (withClips draft.doc track clips).clips := by
      obtain ⟨others, hothers, hafter⟩ := exists_clips_withClips hfound
      intro clip hclip
      rw [(hafter clips).mem_iff, mem_append]
      rcases mem_append.mp (hothers.mem_iff.mp hclip) with hclip | hclip
      · exact .inl (hperm.mem_iff.mpr (mem_cons_of_mem _ hclip))
      · exact .inr hclip
    refine ⟨hlast, by simp [hlength], (Elsewhere.withClips draft.doc track clips).trans hplaced.elsewhere, ?_, ?_⟩
    · intro id hid
      rcases mem_cons.mp hid with rfl | hid
      · exact hfresh
      · intro hmem
        obtain ⟨clip, hclip, rfl⟩ := mem_map.mp hmem
        exact hplaced.fresh clip.id hid (mem_map_of_mem (hkept clip hclip))
    · intro other hother
      rcases mem_cons.mp hother with rfl | hother
      · refine ⟨found, id', mem_cons_self, clips, hfound, ?_, hperm⟩
        rw [hplaced.elsewhere.others other hnodup.1]
        exact trackOf_withClips hfound
      · obtain ⟨found', id, hid, clips', hfound', hafter, hperm'⟩ := hplaced.each other hother
        have hne : other ≠ track := fun heq => hnodup.1 (heq ▸ hother)
        have hfound' : trackOf draft.doc other = .ok found' := (trackOf_withClips_of_ne hne).symm.trans hfound'
        exact ⟨found', id, mem_cons_of_mem _ hid, clips', hfound', hafter, hperm'⟩

/-! ## Linking -/

theorem nextLinkId_fresh {link : LinkId} (h : nextLinkId doc = .ok link) :
    ∀ clip ∈ doc.clips, clip.link ≠ some link := by
  intro clip hclip hlink
  rw [nextLinkId] at h
  split at h
  · have hmem : link ∈ doc.clips.filterMap Clip.link := mem_filterMap.mpr ⟨clip, hclip, hlink⟩
    have hle : link ≤ (doc.clips.filterMap Clip.link).max?.getD 0 := le_max?_getD_of_mem hmem
    have heq := Except.ok.inj h
    have hlt : link < (doc.clips.filterMap Clip.link).max?.getD 0 + 1 := Nat.lt_succ_of_le hle
    exact absurd heq (Nat.ne_of_gt hlt)
  · cases h

/-- A clip after the clips of the given ids were linked. -/
def linkedClip (ids : List ClipId) (link : Option LinkId) (clip : Clip) : Clip :=
  if clip.id ∈ ids then { clip with link } else clip

theorem trackOf_setLink (ids : List ClipId) (link : Option LinkId) (track : TrackId) :
    trackOf (setLink doc ids link) track =
      (trackOf doc track).map fun found => setClips (found.clips.map (linkedClip ids link)) found := by
  have hfind : (setLink doc ids link).tracks.find? (fun other => other.id = track)
      = (doc.tracks.find? fun other => other.id = track).map
        fun found => setClips (found.clips.map (linkedClip ids link)) found := by
    rw [setLink, find?_map]
    rfl
  rw [trackOf, trackOf, hfind]
  cases doc.tracks.find? fun other => other.id = track with
  | none => rfl
  | some found => rfl

theorem map_linkedClip (ids : List ClipId) (link : Option LinkId) (h : ∀ clip ∈ clips, clip.id ∉ ids) :
    clips.map (linkedClip ids link) = clips := by
  refine (map_congr_left fun clip hclip => ?_).trans (map_id clips)
  rw [linkedClip, if_neg (h clip hclip), id]

namespace Placed

variable {new : ClipId → Clip}

section

variable (h : Placed new ids targets doc after)

include h

/-- The clips that were there are not linked anew. -/
theorem fresh_on (htrack : Edits.trackOf doc track = .ok found) :
    ∀ clip ∈ found.clips, clip.id ∉ ids := fun clip hclip hid =>
  h.fresh clip.id hid (mem_map_of_mem (mem_clips (mem_of_trackOf htrack) hclip))

/-- The clips that were there stay. -/
theorem subset (hdistinct : Distinct doc) : ∀ clip ∈ doc.clips, clip ∈ after.clips := by
  intro clip hclip
  rw [Document.clips, mem_flatMap] at hclip
  obtain ⟨found, hfound, hclip⟩ := hclip
  have htrack := hdistinct.trackOf hfound
  by_cases htarget : found.id ∈ targets
  · obtain ⟨found', id, -, clips, hfound', hafter, hperm⟩ := h.each found.id htarget
    obtain rfl := Except.ok.inj (htrack.symm.trans hfound')
    exact mem_clips (mem_of_trackOf hafter) (hperm.mem_iff.mpr (mem_cons_of_mem _ hclip))
  · exact mem_clips (mem_of_trackOf ((h.elsewhere.others found.id htarget).trans htrack)) hclip

theorem setLink (hid : ∀ id, (new id).id = id) (link : Option LinkId) :
    Placed (fun id => { new id with link }) ids targets doc (setLink after ids link) := by
  refine ⟨⟨?_, ?_, ?_⟩, h.fresh, ?_⟩
  · rw [Edits.setLink, h.elsewhere.rest]
  · rw [Edits.setLink, map_map, ← h.elsewhere.trackIds]
    rfl
  · intro track htrack
    rw [trackOf_setLink, h.elsewhere.others track htrack]
    cases hfound : trackOf doc track with
    | error error => rfl
    | ok found =>
      rw [Except.map, map_linkedClip ids link (h.fresh_on hfound)]
      rfl
  · intro track htrack
    obtain ⟨found, id, hmem, clips, hfound, hafter, hperm⟩ := h.each track htrack
    refine ⟨found, id, hmem, clips.map (linkedClip ids link), hfound, ?_, ?_⟩
    · rw [trackOf_setLink, hafter]
      rfl
    · have hnew : linkedClip ids link (new id) = { new id with link } := if_pos ((hid id).symm ▸ hmem)
      have hmapped := hperm.map (linkedClip ids link)
      rw [map_cons, map_linkedClip ids link (h.fresh_on hfound), hnew] at hmapped
      exact hmapped

end

end Placed

/-- A clip as a three-point edit adds it. -/
def placedClip (asset : AssetId) (source : FrameRange) (at_ : TimeCode) (link : Option LinkId) (id : ClipId) : Clip :=
  { newClip id asset source .media at_ [] with link }

/-- Two clips that are added get a link of their own, and one clip gets none. -/
theorem linkPair_ok (hdistinct : Distinct doc) (hlength : ids.length = targets.length)
    (hplaced : Placed (fun id => newClip id asset source .media at_ []) ids targets doc draft.doc)
    (h : linkPair draft ids = .ok edited) :
    ∃ link, Placed (placedClip asset source at_ link) ids targets doc edited.doc ∧
      (targets.length = 2 → link.isSome) ∧ ∀ clip ∈ doc.clips, link.isSome → clip.link ≠ link := by
  rw [linkPair] at h
  by_cases hpair : ids.length = 2
  · rw [if_pos hpair] at h
    rw [Draft.keep, bind_eq_ok] at h
    obtain ⟨linked, hlinked, h⟩ := h
    obtain rfl := Except.ok.inj h
    rw [linkClips, bind_eq_ok] at hlinked
    obtain ⟨_, -, hlinked⟩ := hlinked
    obtain ⟨link, hlink, hlinked⟩ := bind_eq_ok.mp hlinked
    obtain rfl := Except.ok.inj hlinked
    have hfresh := nextLinkId_fresh hlink
    exact ⟨some link, hplaced.setLink (fun _ => rfl) (some link), fun _ => rfl,
      fun clip hclip _ => hfresh clip (hplaced.subset hdistinct clip hclip)⟩
  · rw [if_neg hpair] at h
    obtain rfl := Except.ok.inj h
    refine ⟨none, hplaced, fun htwo => absurd (hlength.trans htwo) hpair, fun clip _ hsome => ?_⟩
    cases hsome

/-! ## Three-point edits -/

/-- What both kinds of three-point edits are given. -/
structure ThreePoint where
  asset : AssetId
  marks : Marks
  mode : ThreePointMode
  targets : List TrackId

def Operation.threePoint : Operation → Option ThreePoint
  | .threePointEdit track asset marks mode => some ⟨asset, marks, mode, [track]⟩
  | .patchedThreePointEdit asset marks mode routes => some ⟨asset, marks, mode, routes.list.map fun route => route.2.2⟩
  | _ => none

theorem range_of_derive {media : MediaAsset} {marks : Marks} {timeline : FrameRange}
    (h : deriveThreePointRanges doc media marks = .ok (source, timeline)) : timeline.start < timeline.stop := by
  rw [deriveThreePointRanges, bind_eq_ok] at h
  obtain ⟨⟨source', timeline'⟩, -, h⟩ := h
  simp only [bind_eq_ok, Except.ok.injEq, Prod.mk.injEq] at h
  obtain ⟨_, -, _, hrange, _, -, _, -, _, -, -, rfl⟩ := h
  rw [validateTimelineRange, refuse_eq_ok, not_or, Int64.not_le] at hrange
  exact hrange.2

/-- The routes that are accepted go to tracks of their own. -/
theorem routes_of_ok {media : MediaAsset} {routes : Routes}
    (h : validateSourcePatchRoutes doc media routes = .ok targets) :
    targets = routes.list.map (fun route => route.2.2) ∧ targets.Nodup ∧
      ∀ track ∈ targets, ∃ found, trackOf doc track = .ok found := by
  simp only [validateSourcePatchRoutes, bind_eq_ok, Except.ok.injEq] at h
  obtain ⟨⟨⟩, hroutes, _, -, rfl⟩ := h
  refine ⟨rfl, ?_, fun track htrack => ?_⟩
  · have hcheck (before : List (String × TrackKind × TrackId)) (route : String × TrackKind × TrackId)
        (hroute : validateRoute doc media before route = .ok ()) :
        route.2.2 ∉ before.map fun other => other.2.2 := by
      rw [validateRoute, bind_eq_ok] at hroute
      obtain ⟨_, hfresh, -⟩ := hroute
      exact refuse_eq_ok.mp hfresh
    have hnodup : (([] ++ routes.list).map fun route : String × TrackKind × TrackId => route.2.2).Nodup :=
      nodup_of_allAfter hcheck nodup_nil hroutes
    exact hnodup
  · obtain ⟨route, hroute, rfl⟩ := mem_map.mp htrack
    obtain ⟨before, hcheck⟩ := check_of_allAfter hroutes route hroute
    rw [validateRoute, bind_eq_ok] at hcheck
    obtain ⟨_, -, hcheck⟩ := hcheck
    obtain ⟨found, hfound, -⟩ := bind_eq_ok.mp hcheck
    exact ⟨found, hfound⟩

/-- Both kinds of three-point edits derive the ranges, make room, add the clips and link them. -/
theorem edited_of_threePoint {operation : Operation} {point : ThreePoint} (hpoint : operation.threePoint = some point)
    (h : operation.draft doc = .ok edited) :
    ∃ media source timeline duration room added ids, doc.asset point.asset = some media ∧
      deriveThreePointRanges doc media point.marks = .ok (source, timeline) ∧
      timelineDuration timeline = .ok duration ∧ point.targets.Nodup ∧
      (∀ track ∈ point.targets, ∃ found, trackOf doc track = .ok found) ∧
      makeRoom { doc, events := [] } point.targets timeline duration point.mode = .ok room ∧
      addEach point.asset timeline.start source room point.targets = .ok (added, ids) ∧
        linkPair added ids = .ok edited := by
  cases operation with
  | threePointEdit track asset marks mode =>
    obtain rfl := Option.some.inj hpoint
    rw [Operation.draft, Operation.edit, threePointEdit] at h
    simp only [bind_eq_ok, okOr_eq_ok] at h
    obtain ⟨_, -, media, hmedia, found, hfound, _, -, ⟨source, timeline⟩, hranges, duration, hduration, room, hroom,
      hadd⟩ := h
    have hid : ∃ id, room.doc.nextClipId = .ok id := by
      have hmake := hadd
      rw [Draft.add, Draft.make, bind_eq_ok] at hmake
      obtain ⟨_, -, hmake⟩ := hmake
      obtain ⟨id, hid, -⟩ := bind_eq_ok.mp hmake
      exact ⟨id, hid⟩
    obtain ⟨id, hid⟩ := hid
    refine ⟨media, source, timeline, duration, room, edited, [id], hmedia, hranges, hduration,
      nodup_singleton track, ?_, hroom, ?_, rfl⟩
    · intro other hother
      obtain rfl := mem_singleton.mp hother
      exact ⟨found, hfound⟩
    · rw [addEach, hid, hadd]
      rfl
  | patchedThreePointEdit asset marks mode routes =>
    obtain rfl := Option.some.inj hpoint
    rw [Operation.draft, Operation.edit, patchedThreePointEdit] at h
    simp only [bind_eq_ok, okOr_eq_ok] at h
    obtain ⟨_, -, media, hmedia, targets, hroutes, ⟨source, timeline⟩, hranges, duration, hduration, room, hroom,
      ⟨added, ids⟩, hadd, hlink⟩ := h
    obtain ⟨rfl, hnodup, hexists⟩ := routes_of_ok hroutes
    exact ⟨media, source, timeline, duration, room, added, ids, hmedia, hranges, hduration, hnodup, hexists, hroom,
      hadd, hlink⟩
  | _ => cases hpoint

end Kinewright.Edits
