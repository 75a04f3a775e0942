import Kinewright.Edits.Tracks

/-!
# Clearing a range of a track

`clear_track_range` of `operation.rs`: what goes on over a boundary of the range is split there, and what lies
inside is deleted.
-/

namespace Kinewright.Edits

open Fallible Model List Draft

variable {doc : Document} {draft next : Draft} {track : TrackId} {found : Track} {clip : Clip}
  {clips clips' : List Clip} {at_ : TimeCode} {range : FrameRange}

theorem straddles_iff : straddles doc at_ clip = true ↔
    ∃ stop, doc.clipEnd clip = .ok stop ∧ clip.timelineStart < at_ ∧ at_ < stop := by
  rw [straddles]
  cases doc.clipEnd clip with
  | ok stop => simp
  | error error => simp

theorem isInside_iff : isInside doc range clip = true ↔
    ∃ stop, doc.clipEnd clip = .ok stop ∧ range.start ≤ clip.timelineStart ∧ stop ≤ range.stop := by
  rw [isInside]
  cases doc.clipEnd clip with
  | ok stop => simp
  | error error => simp

/-! ## Splitting at a boundary -/

/-- The clips of a track after they were split at a frame, and the clips that this made. -/
inductive SplitAt (doc : Document) (at_ : TimeCode) (clips : List Clip) : List ClipId → List Clip → Prop
  | whole (hnone : ∀ clip ∈ clips, straddles doc at_ clip = false) : SplitAt doc at_ clips [] clips
  | halved {clip : Clip} {clips' : List Clip} (cut : Cut doc clip at_) (id : ClipId) (hclip : clip ∈ clips)
      (hhalved : cut.Halved id) (hfresh : id ∉ clips.map Clip.id)
      (hperm : clips'.Perm (cut.left :: cut.right id :: clips.filter fun other => other.id ≠ clip.id)) :
      SplitAt doc at_ clips [id] clips'

/-- The clip that is split goes on over the frame. -/
theorem Cut.straddles (cut : Cut doc clip at_) : straddles doc at_ clip = true :=
  straddles_iff.mpr ⟨cut.stop, cut.clipEnd, cut.start_lt, cut.lt_stop⟩

/-- A split makes ids beside the ones of before. -/
theorem SplitAt.ids {made : List ClipId} (h : SplitAt doc at_ clips made clips')
    (hnodup : (clips.map Clip.id).Nodup) : (clips'.map Clip.id).Perm (made ++ clips.map Clip.id) := by
  cases h with
  | whole hnone => exact .refl _
  | @halved clip _ cut id hclip hhalved hfresh hperm =>
    have hbefore := (perm_cons_filter_key hnodup hclip).map Clip.id
    have hafter := hperm.map Clip.id
    exact (hafter.trans (.swap id clip.id _)).trans (hbefore.symm.cons id)

theorem SplitAt.nodup {made : List ClipId} (h : SplitAt doc at_ clips made clips')
    (hnodup : (clips.map Clip.id).Nodup) : (clips'.map Clip.id).Nodup := by
  rw [(h.ids hnodup).nodup_iff]
  cases h with
  | whole _ => exact hnodup
  | halved _ _ _ _ hfresh _ => exact nodup_cons.mpr ⟨hfresh, hnodup⟩

/-- A split reads nothing of the tracks. -/
theorem SplitAt.of_withClips {made : List ClipId} {others : List Clip}
    (h : SplitAt (withClips doc track others) at_ clips made clips') : SplitAt doc at_ clips made clips' := by
  cases h with
  | whole hnone => exact .whole hnone
  | @halved clip _ cut id hclip hhalved hfresh hperm =>
    let cut' : Cut doc clip at_ :=
      { stop := cut.stop
        offset := cut.offset
        boundary := cut.boundary
        clipEnd := cut.clipEnd
        start_lt := cut.start_lt
        lt_stop := cut.lt_stop
        offset_eq := cut.offset_eq
        boundary_eq := cut.boundary_eq }
    have hhalved' : cut'.Halved id := ⟨hhalved.remaining_eq, hhalved.leftDuration, hhalved.rightDuration⟩
    exact .halved cut' id hclip hhalved' hfresh hperm

theorem splitTrack_ok (hdistinct : Distinct draft.doc) (htrack : trackOf draft.doc track = .ok found)
    (h : splitTrack track draft at_ = .ok next) :
    ∃ made clips, SplitAt draft.doc at_ found.clips made clips ∧ next.doc = withClips draft.doc track clips ∧
      next.events = draft.events ++ made.map .made ∧ (∀ id ∈ made, draft.doc.nextClipId = .ok id) ∧
        Distinct next.doc := by
  have hnodup := hdistinct.clips_nodup htrack
  rw [splitTrack, htrack, ok_bind] at h
  split at h
  · rename_i clip hfind
    have hclip := mem_of_find?_eq_some hfind
    rw [Draft.split, make, bind_eq_ok] at h
    obtain ⟨doc, hdoc, h⟩ := h
    obtain ⟨id, hid, h⟩ := bind_eq_ok.mp h
    obtain rfl := Except.ok.inj h
    obtain ⟨cut, id', clips, hid', hhalved, hperm, rfl⟩ := splitClip_eq hdistinct htrack hclip hdoc
    obtain rfl := Except.ok.inj (hid'.symm.trans hid)
    have hfresh : id' ∉ found.clips.map Clip.id := by
      intro hmem
      obtain ⟨other, hother, heq⟩ := mem_map.mp hmem
      exact nextClipId_fresh hid (mem_map.mpr ⟨other, mem_clips (mem_of_trackOf htrack) hother, heq⟩)
    have hsplit : SplitAt draft.doc at_ found.clips [id'] clips := .halved cut id' hclip hhalved hfresh hperm
    refine ⟨[id'], clips, hsplit, rfl, rfl, by simpa using hid, ?_⟩
    have hids := hsplit.ids hnodup
    refine hdistinct.withClips htrack ?_ fun other hother => ?_
    · exact hsplit.nodup hnodup
    · rcases mem_cons.mp (hids.mem_iff.mp hother) with rfl | hother
      · exact .inr (nextClipId_fresh hid)
      · exact .inl hother
  · rename_i hnone
    obtain rfl := Except.ok.inj h
    have hwhole (clip : Clip) (hclip : clip ∈ found.clips) : straddles draft.doc at_ clip = false := by
      simpa using find?_eq_none.mp hnone clip hclip
    exact ⟨[], found.clips, .whole hwhole, (withClips_self htrack).symm, by simp, by simp, hdistinct⟩

/-! ## Deleting what lies inside -/

theorem deleteEach_ok {ids : List ClipId} (hdistinct : Distinct draft.doc)
    (htrack : trackOf draft.doc track = .ok found) (hnodup : ids.Nodup)
    (hids : ∀ id ∈ ids, id ∈ found.clips.map Clip.id) (h : each delete draft ids = .ok next) :
    next.doc = withClips draft.doc track (found.clips.filter fun clip => clip.id ∉ ids) ∧
      next.events = draft.events ++ ids.map .removed := by
  induction ids generalizing draft found with
  | nil =>
    obtain rfl := Except.ok.inj h
    simp [withClips_self htrack]
  | cons id ids ih =>
    rw [each, bind_eq_ok] at h
    obtain ⟨deleted, hdeleted, h⟩ := h
    rw [delete, remove, bind_eq_ok] at hdeleted
    obtain ⟨doc, hdoc, hdeleted⟩ := hdeleted
    obtain rfl := Except.ok.inj hdeleted
    obtain ⟨clip, hclip, rfl⟩ := mem_map.mp (hids id mem_cons_self)
    obtain rfl := deleteClip_eq hdistinct htrack hclip hdoc
    rw [nodup_cons] at hnodup
    let kept := found.clips.filter fun other => other.id ≠ clip.id
    have hsublist : (kept.map Clip.id).Sublist (found.clips.map Clip.id) := filter_sublist.map Clip.id
    have hdistinct' : Distinct (withClips draft.doc track kept) :=
      hdistinct.withClips htrack (hsublist.nodup (hdistinct.clips_nodup htrack)) fun other hother =>
        .inl (hsublist.subset hother)
    have hids' : ∀ other ∈ ids, other ∈ kept.map Clip.id := by
      intro other hother
      obtain ⟨found', hfound', rfl⟩ := mem_map.mp (hids other (mem_cons_of_mem _ hother))
      have hne : found'.id ≠ clip.id := fun heq => hnodup.1 (heq ▸ hother)
      exact mem_map_of_mem (mem_filter.mpr ⟨hfound', by simpa using hne⟩)
    obtain ⟨hdoc', hevents⟩ := ih hdistinct' (trackOf_withClips htrack) hnodup.2 hids' h
    refine ⟨?_, ?_⟩
    · rw [hdoc', withClips_withClips, setClips, filter_filter]
      congr 2
      funext other
      rw [Bool.eq_iff_iff]
      simp only [Bool.and_eq_true, decide_eq_true_eq, mem_cons, not_or]
      exact and_comm
    · rw [hevents, append_assoc]
      rfl

/-- What the clearing of a range does to a track. -/
theorem clearTrackRange_ok (hdistinct : Distinct draft.doc) (htrack : trackOf draft.doc track = .ok found)
    (h : clearTrackRange range draft track = .ok next) :
    ∃ made passing middle last, SplitAt draft.doc range.stop found.clips made middle ∧
      SplitAt draft.doc range.start middle passing last ∧
      next.doc = withClips draft.doc track (last.filter fun clip => isInside draft.doc range clip = false) ∧
      next.events = draft.events ++ made.map .made ++ passing.map .made ++
        ((last.filter (isInside draft.doc range)).map Clip.id).map .removed ∧
      (∀ id ∈ made, draft.doc.nextClipId = .ok id) ∧
      (∀ id ∈ passing, (withClips draft.doc track middle).nextClipId = .ok id) ∧ Distinct next.doc := by
  rw [clearTrackRange, bind_eq_ok] at h
  obtain ⟨split, hsplit, h⟩ := h
  rw [each, bind_eq_ok] at hsplit
  obtain ⟨first, hfirst, hsplit⟩ := hsplit
  rw [each, bind_eq_ok] at hsplit
  obtain ⟨second, hsecond, hsplit⟩ := hsplit
  obtain rfl := Except.ok.inj hsplit
  obtain ⟨made, middle, hmiddle, hfirstDoc, hfirstEvents, hmade, hdistinct'⟩ := splitTrack_ok hdistinct htrack hfirst
  have htrack' : trackOf first.doc track = .ok (setClips middle found) := hfirstDoc ▸ trackOf_withClips htrack
  obtain ⟨passing, last, hlast, hsecondDoc, hsecondEvents, hpassing, hdistinct''⟩ :=
    splitTrack_ok hdistinct' htrack' hsecond
  rw [hfirstDoc] at hlast hpassing hsecondDoc
  rw [withClips_withClips] at hsecondDoc
  have hlast := hlast.of_withClips
  have htrack'' : trackOf second.doc track = .ok (setClips last found) := hsecondDoc ▸ trackOf_withClips htrack
  have hlastNodup := hdistinct''.clips_nodup htrack''
  rw [htrack''] at h
  have hinside : isInside second.doc range = isInside draft.doc range := by
    rw [hsecondDoc]
    rfl
  rw [hinside] at h
  have hsublist : ((last.filter (isInside draft.doc range)).map Clip.id).Sublist (last.map Clip.id) :=
    filter_sublist.map Clip.id
  obtain ⟨hdoc, hevents⟩ := deleteEach_ok hdistinct'' htrack'' (hsublist.nodup hlastNodup)
    (fun id hid => hsublist.subset hid) h
  have hfilter : (last.filter fun clip => clip.id ∉ (last.filter (isInside draft.doc range)).map Clip.id)
      = last.filter fun clip => isInside draft.doc range clip = false := by
    refine filter_congr fun clip hclip => ?_
    rw [decide_eq_decide, ← Bool.not_eq_true, not_iff_not]
    constructor
    · intro hmem
      obtain ⟨other, hother, heq⟩ := mem_map.mp hmem
      obtain ⟨hother, hin⟩ := mem_filter.mp hother
      exact inj_on_of_nodup_map hlastNodup hother hclip heq ▸ hin
    · exact fun hin => mem_map_of_mem (mem_filter.mpr ⟨hclip, hin⟩)
  have hdoc : next.doc = withClips draft.doc track
      (last.filter fun clip => isInside draft.doc range clip = false) := by
    rw [hdoc, hsecondDoc, withClips_withClips, ← hfilter]
    rfl
  refine ⟨made, passing, middle, last, hmiddle, hlast, hdoc, ?_, hmade, hpassing, ?_⟩
  · rw [hevents, hsecondEvents, hfirstEvents]
  · have hkept : ((last.filter fun clip => isInside draft.doc range clip = false).map Clip.id).Sublist
        (last.map Clip.id) := filter_sublist.map Clip.id
    have hdistinct := hdistinct''.withClips htrack'' (hkept.nodup hlastNodup) fun id hid => .inl (hkept.subset hid)
    rw [hsecondDoc, withClips_withClips] at hdistinct
    exact hdoc ▸ hdistinct

/-! ## What lies inside -/

/-- No two of the clips meet. -/
def ApartOn (doc : Document) (clips : List Clip) : Prop :=
  ∀ clip ∈ clips, ∀ other ∈ clips, clip ≠ other → ∀ stop stop', doc.clipEnd clip = .ok stop →
    doc.clipEnd other = .ok stop' → stop ≤ other.timelineStart ∨ stop' ≤ clip.timelineStart

theorem apartOn_of_apart (h : Apart doc clips) : ApartOn doc clips := by
  let Meets (clip other : Clip) : Prop := ∀ stop stop', doc.clipEnd clip = .ok stop →
    doc.clipEnd other = .ok stop' → stop ≤ other.timelineStart ∨ stop' ≤ clip.timelineStart
  have hpairs : clips.Pairwise Meets := h.imp fun hbefore stop stop' hstop _ => .inl (hbefore stop hstop)
  have : Std.Symm Meets := ⟨fun _ _ hmeets stop stop' hstop hstop' => (hmeets stop' stop hstop' hstop).symm⟩
  exact fun clip hclip other hother hne => hpairs.forall hclip hother hne

/-- A clip that starts before the frame of the split ends there at the latest. -/
theorem SplitAt.stop_le {made : List ClipId} {stop : TimeCode} (h : SplitAt doc at_ clips made clips')
    (hapart : ApartOn doc clips) (hclip : clip ∈ clips') (hlt : clip.timelineStart < at_)
    (hstop : doc.clipEnd clip = .ok stop) : stop ≤ at_ := by
  cases h with
  | whole hnone =>
    by_contra hgt
    have hstraddles := straddles_iff.mpr ⟨stop, hstop, hlt, Int64.not_le.mp hgt⟩
    rw [hnone clip hclip] at hstraddles
    cases hstraddles
  | @halved original _ cut id horiginal hhalved hfresh hperm =>
    rcases mem_cons.mp (hperm.mem_iff.mp hclip) with rfl | hclip
    · obtain rfl := Except.ok.inj (hstop.symm.trans hhalved.leftEnd)
      exact Int64.le_refl _
    · rcases mem_cons.mp hclip with rfl | hclip
      · exact absurd hlt Int64.lt_irrefl
      · -- it is apart from the clip that goes on over the frame
        obtain ⟨hmem, hne⟩ := mem_filter.mp hclip
        have hne : clip ≠ original := fun heq => by simp [heq] at hne
        rcases hapart clip hmem original horiginal hne stop cut.stop hstop cut.clipEnd with hle | hle
        · exact Int64.le_trans hle (Int64.le_of_lt cut.start_lt)
        · have hlt' := Int64.lt_of_lt_of_le cut.lt_stop hle
          exact absurd (Int64.lt_trans hlt hlt') Int64.lt_irrefl

variable {made passing : List ClipId} {middle last : List Clip}

/-- The part that a split at the start of the range makes lies inside it. -/
theorem SplitAt.passing_inside (h : SplitAt doc range.start middle passing last) (hrange : range.start < range.stop)
    (hstop : ∀ clip ∈ middle, clip.timelineStart < range.stop → ∀ stop, doc.clipEnd clip = .ok stop →
      stop ≤ range.stop) :
    ∀ id ∈ passing, id ∈ (last.filter (isInside doc range)).map Clip.id := by
  intro id hid
  cases h with
  | whole hnone => cases hid
  | @halved original _ cut id' horiginal hhalved hfresh hperm =>
    obtain rfl := mem_singleton.mp hid
    have hmem : cut.right id ∈ last := hperm.mem_iff.mpr (by simp)
    have hle := hstop original horiginal (Int64.lt_trans cut.start_lt hrange) cut.stop cut.clipEnd
    have hinside : isInside doc range (cut.right id) = true :=
      isInside_iff.mpr ⟨cut.stop, hhalved.rightEnd, Int64.le_refl _, hle⟩
    exact mem_map_of_mem (mem_filter.mpr ⟨hmem, hinside⟩)

/-- The part that a split at the end of the range makes does not lie inside it. -/
theorem SplitAt.made_outside (h : SplitAt doc range.stop clips made middle)
    (h' : SplitAt doc range.start middle passing last) (hrange : range.start < range.stop)
    (hmiddle : (middle.map Clip.id).Nodup) (hnodup : (last.map Clip.id).Nodup) :
    ∀ id ∈ made, id ∉ (last.filter (isInside doc range)).map Clip.id := by
  intro id hid hinside
  cases h with
  | whole hnone => cases hid
  | @halved original _ cut id' horiginal hhalved hfresh hperm =>
    obtain rfl := mem_singleton.mp hid
    have hmem : cut.right id ∈ middle := hperm.mem_iff.mpr (by simp)
    have hlast : cut.right id ∈ last := by
      cases h' with
      | whole _ => exact hmem
      | @halved second _ cut' other hsecond _ _ hperm' =>
        have hne : (cut.right id).id ≠ second.id := by
          intro heq
          obtain rfl := inj_on_of_nodup_map hmiddle hmem hsecond heq
          exact absurd (Int64.lt_trans cut'.start_lt hrange) Int64.lt_irrefl
        refine hperm'.mem_iff.mpr (mem_cons_of_mem _ (mem_cons_of_mem _ ?_))
        exact mem_filter.mpr ⟨hmem, by simpa using hne⟩
    obtain ⟨clip, hclip, heq⟩ := mem_map.mp hinside
    obtain ⟨hclip, hin⟩ := mem_filter.mp hclip
    obtain rfl := inj_on_of_nodup_map hnodup hclip hlast heq
    obtain ⟨stop, hstop, -, hle⟩ := isInside_iff.mp hin
    obtain rfl := Except.ok.inj (hhalved.rightEnd.symm.trans hstop)
    exact absurd (Int64.lt_of_lt_of_le cut.lt_stop hle) Int64.lt_irrefl

/-- A split at the start of the range leaves inside it what lay there, and the part that it makes. -/
theorem SplitAt.inside_iff {id : ClipId} (h : SplitAt doc range.start middle passing last)
    (hmiddle : (middle.map Clip.id).Nodup)
    (hinside : ∀ id ∈ passing, id ∈ (last.filter (isInside doc range)).map Clip.id) :
    id ∈ (last.filter (isInside doc range)).map Clip.id ↔
      id ∈ passing ∨ id ∈ (middle.filter (isInside doc range)).map Clip.id := by
  cases h with
  | whole hnone => simp
  | @halved original _ cut made horiginal hhalved hfresh hperm =>
    have hbefore (clip : Clip) (hlt : clip.timelineStart < range.start) : isInside doc range clip = false := by
      by_contra hin
      obtain ⟨_, -, hle, -⟩ := isInside_iff.mp (by simpa using hin)
      exact absurd (Int64.lt_of_lt_of_le hlt hle) Int64.lt_irrefl
    constructor
    · intro hid
      obtain ⟨clip, hclip, rfl⟩ := mem_map.mp hid
      obtain ⟨hclip, hin⟩ := mem_filter.mp hclip
      rcases mem_cons.mp (hperm.mem_iff.mp hclip) with rfl | hclip
      · have hout : isInside doc range cut.left = false := hbefore cut.left cut.start_lt
        rw [hout] at hin
        cases hin
      · rcases mem_cons.mp hclip with rfl | hclip
        · exact .inl mem_cons_self
        · exact .inr (mem_map_of_mem (mem_filter.mpr ⟨(mem_filter.mp hclip).1, hin⟩))
    · rintro (hid | hid)
      · exact hinside id hid
      · obtain ⟨clip, hclip, rfl⟩ := mem_map.mp hid
        obtain ⟨hclip, hin⟩ := mem_filter.mp hclip
        have hne : clip.id ≠ original.id := by
          intro heq
          obtain rfl := inj_on_of_nodup_map hmiddle hclip horiginal heq
          rw [hbefore clip cut.start_lt] at hin
          cases hin
        refine mem_map_of_mem (mem_filter.mpr ⟨hperm.mem_iff.mpr ?_, hin⟩)
        exact mem_cons_of_mem _ (mem_cons_of_mem _ (mem_filter.mpr ⟨hclip, by simpa using hne⟩))

end Kinewright.Edits
