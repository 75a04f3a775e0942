import Mathlib.Order.Lattice.Nat
import Kinewright.Edits.Identities
import Kinewright.Edits.Overwrites
import Kinewright.Edits.Stills
import Kinewright.Edits.Targets

/-!
# Ids that are used again

`operation.rs`: an edit that overwrites deletes clips before it adds one, and the id of a new clip follows the
highest of the clips that are there. The effect that is reported for such an edit is truthful, exactly if no
new clip gets the id of one that was deleted.
-/

namespace Kinewright.Edits

open Fallible Model
open List hiding Disjoint

/-! ## The ids that an overwrite gives -/

/-- The id after the highest one. -/
def nextId (present : Finset ClipId) : ℕ := present.sup (fun id => id) + 1

/-- A clip of the track goes on over the frame. -/
def isStraddled (doc : Document) (at_ : TimeCode) (track : TrackId) : Bool :=
  match trackOf doc track with
  | .ok found => found.clips.any (straddles doc at_)
  | .error _ => false

/-- The ids of the clips of the track inside the range. -/
def insideIds (doc : Document) (range : FrameRange) (track : TrackId) : Finset ClipId :=
  match trackOf doc track with
  | .ok found => ((found.clips.filter (isInside doc range)).map Clip.id).toFinset
  | .error _ => ∅

/-- The first id of a clip that an overwrite makes and keeps. The clips inside the range are deleted track by
track, until a clip goes on over the end of the range. -/
def firstKept (doc : Document) (range : FrameRange) (present : Finset ClipId) : List TrackId → ℕ
  | [] => nextId present
  | track :: tracks => if isStraddled doc range.stop track then nextId present
    else firstKept doc range (present \ insideIds doc range track) tracks

/-- One clip goes onto each track, and one part of a clip stays after the range where a clip goes on over its
end. -/
def keptCount (doc : Document) (range : FrameRange) (targets : List TrackId) : ℕ :=
  targets.countP (isStraddled doc range.stop) + targets.length

/-- An overwrite of the range on the tracks gives the id of a clip that is there. -/
def OverwriteReuses (doc : Document) (range : FrameRange) (targets : List TrackId) : Prop :=
  let first := firstKept doc range (clipIdentities doc) targets
  ∃ id ∈ clipIdentities doc, first ≤ id ∧ id < first + keptCount doc range targets

instance (doc : Document) (range : FrameRange) (targets : List TrackId) :
    Decidable (OverwriteReuses doc range targets) := by
  unfold OverwriteReuses
  infer_instance

variable {start doc : Document} {draft next : Draft} {track : TrackId} {found : Track} {clip : Clip}
  {clips : List Clip} {at_ : TimeCode} {range : FrameRange} {id : ClipId}

theorem sup_toFinset (ids : List ClipId) : ids.toFinset.sup (fun id => id) = ids.max?.getD 0 := by
  refine le_antisymm (Finset.sup_le fun id hid => ?_) ?_
  · exact le_max?_getD_of_mem (mem_toFinset.mp hid)
  · cases hmax : ids.max? with
    | none => exact Nat.zero_le _
    | some last =>
      have hlast : last ∈ ids.toFinset := mem_toFinset.mpr (max?_mem hmax)
      exact Finset.le_sup (f := fun id : ClipId => id) hlast

theorem nextId_of_ok (h : doc.nextClipId = .ok id) : id = nextId (clipIdentities doc) := by
  rw [Document.nextClipId] at h
  split at h
  · obtain rfl := Except.ok.inj h
    rw [nextId, clipIdentities, sup_toFinset]
  · cases h

theorem lt_nextId {present : Finset ClipId} {id : ℕ} (h : id ∈ present) : id < nextId present :=
  Nat.lt_succ_of_le (Finset.le_sup (f := fun id : ClipId => id) h)

theorem mem_clipIdentities_of_track (htrack : trackOf doc track = .ok found) (hid : id ∈ found.clips.map Clip.id) :
    id ∈ clipIdentities doc := by
  obtain ⟨clip, hclip, rfl⟩ := mem_map.mp hid
  exact mem_toFinset.mpr (mem_map_of_mem (mem_clips (mem_of_trackOf htrack) hclip))

theorem mem_clipIdentities_withClips (hdistinct : Distinct doc) (htrack : trackOf doc track = .ok found) :
    id ∈ clipIdentities (withClips doc track clips) ↔
      id ∈ clips.map Clip.id ∨ id ∈ clipIdentities doc ∧ id ∉ found.clips.map Clip.id := by
  obtain ⟨rest, hrest, hclips⟩ := exists_clips_withClips htrack
  have hnodup := (hrest.map Clip.id).nodup_iff.mp hdistinct.clipIds
  rw [map_append, nodup_append] at hnodup
  rw [clipIdentities, clipIdentities, mem_toFinset, mem_toFinset, ((hclips clips).map Clip.id).mem_iff,
    (hrest.map Clip.id).mem_iff, map_append, map_append, mem_append, mem_append]
  tauto

/-! ## Clearing a track -/

/-- What the clearing of a range of a track does to the ids. -/
structure Cleared (range : FrameRange) (track : TrackId) (found : Track) (draft next : Draft) : Prop where
  distinct : Distinct next.doc
  clipEnd : next.doc.clipEnd = draft.doc.clipEnd
  others : ∀ other, other ≠ track → trackOf next.doc other = trackOf draft.doc other
  /-- A part stays after the range, or the clips inside it are gone. -/
  ids : (∃ id, found.clips.any (straddles draft.doc range.stop) = true ∧ id = nextId (clipIdentities draft.doc) ∧
      standing next.events = insert id (standing draft.events) ∧ id ∈ clipIdentities next.doc ∧
        clipIdentities next.doc ⊆ insert id (clipIdentities draft.doc)) ∨
    found.clips.any (straddles draft.doc range.stop) = false ∧ standing next.events = standing draft.events ∧
      clipIdentities next.doc = clipIdentities draft.doc \
        ((found.clips.filter (isInside draft.doc range)).map Clip.id).toFinset
  /-- Only clips of the track are gone. -/
  stays : ∀ id ∈ clipIdentities draft.doc, id ∉ found.clips.map Clip.id → id ∈ clipIdentities next.doc

theorem cleared_of_ok (hdistinct : Distinct draft.doc) (htrack : trackOf draft.doc track = .ok found)
    (hrange : range.start < range.stop) (hapart : ApartOn draft.doc found.clips)
    (hstanding : ∀ id ∈ standing draft.events, id ∉ found.clips.map Clip.id)
    (hthere : standing draft.events ⊆ clipIdentities draft.doc)
    (h : clearTrackRange range draft track = .ok next) : Cleared range track found draft next := by
  obtain ⟨made, passing, middle, last, hmiddle, hlast, hdoc, hevents, hmade, hpassing, hdistinct'⟩ :=
    clearTrackRange_ok hdistinct htrack h
  have hnodup := hdistinct.clips_nodup htrack
  have hmiddleNodup := hmiddle.nodup hnodup
  have hlastNodup := hlast.nodup hmiddleNodup
  have hstops (clip : Clip) (hclip : clip ∈ middle) (hlt : clip.timelineStart < range.stop) (stop : TimeCode)
      (hstop : draft.doc.clipEnd clip = .ok stop) : stop ≤ range.stop := hmiddle.stop_le hapart hclip hlt hstop
  have hpassingInside := hlast.passing_inside hrange hstops
  have hmadeOutside := hmiddle.made_outside hlast hrange hmiddleNodup hlastNodup
  have hlastIds (id : ClipId) : id ∈ last.map Clip.id ↔ id ∈ passing ∨ id ∈ made ∨ id ∈ found.clips.map Clip.id := by
    rw [(hlast.ids hmiddleNodup).mem_iff, mem_append, (hmiddle.ids hnodup).mem_iff, mem_append]
  have hfoundIds (id : ClipId) (hid : id ∈ found.clips.map Clip.id) : id ∈ clipIdentities draft.doc :=
    mem_clipIdentities_of_track htrack hid
  have hmadeFresh (id : ClipId) (hid : id ∈ made) : id ∉ clipIdentities draft.doc := by
    rw [clipIdentities, mem_toFinset]
    exact nextClipId_fresh (hmade id hid)
  have hpassingFresh (id : ClipId) (hid : id ∈ passing) : id ∉ middle.map Clip.id ∧
      ¬ (id ∈ clipIdentities draft.doc ∧ id ∉ found.clips.map Clip.id) := by
    have hfresh := nextClipId_fresh (hpassing id hid)
    rw [← mem_toFinset, ← clipIdentities, mem_clipIdentities_withClips hdistinct htrack] at hfresh
    exact not_or.mp hfresh
  let gone := (last.filter (isInside draft.doc range)).map Clip.id
  have hgone (id : ClipId) (hid : id ∈ gone) : id ∈ passing ∨ id ∈ made ∨ id ∈ found.clips.map Clip.id :=
    (hlastIds id).mp ((filter_sublist.map Clip.id).subset hid)
  have hstandingNext : standing next.events = made.toFinset ∪ standing draft.events := by
    rw [hevents, standing_removed, standing_mades, standing_mades]
    ext id
    simp only [Finset.mem_sdiff, Finset.mem_union, mem_toFinset]
    constructor
    · rintro ⟨hpassed | hid, hstays⟩
      · exact absurd (hpassingInside id hpassed) hstays
      · exact hid
    · rintro (hid | hid)
      · exact ⟨.inr (.inl hid), hmadeOutside id hid⟩
      · refine ⟨.inr (.inr hid), fun hgoneId => ?_⟩
        rcases hgone id hgoneId with hpassed | hmadeId | hfoundId
        · exact (hpassingFresh id hpassed).2 ⟨hthere hid, hstanding id hid⟩
        · exact hmadeFresh id hmadeId (hthere hid)
        · exact hstanding id hid hfoundId
  have hkept (id : ClipId) : id ∈ clipIdentities next.doc ↔
      (id ∈ last.map Clip.id ∧ id ∉ gone) ∨ id ∈ clipIdentities draft.doc ∧ id ∉ found.clips.map Clip.id := by
    rw [hdoc, mem_clipIdentities_withClips hdistinct htrack, mem_map_filter_false hlastNodup]
  have hothers (other : TrackId) (hne : other ≠ track) : trackOf next.doc other = trackOf draft.doc other := by
    rw [hdoc, trackOf_withClips_of_ne hne]
  refine ⟨hdistinct', by rw [hdoc]; rfl, hothers, ?_, fun id hid hother => (hkept id).mpr (.inr ⟨hid, hother⟩)⟩
  cases hmiddle with
  | whole hnone =>
    refine .inr ⟨any_eq_false.mpr fun clip hclip => by simpa using hnone clip hclip, ?_, ?_⟩
    · simpa using hstandingNext
    · ext id
      have hinside : id ∈ gone ↔ id ∈ passing ∨ id ∈ (found.clips.filter (isInside draft.doc range)).map Clip.id :=
        hlast.inside_iff hmiddleNodup hpassingInside
      rw [hkept, hlastIds, hinside, Finset.mem_sdiff, mem_toFinset]
      constructor
      · rintro (⟨hid, hout⟩ | ⟨hid, hother⟩)
        · rw [not_or] at hout
          rcases hid with hpassed | hmadeId | hfoundId
          · exact absurd hpassed hout.1
          · cases hmadeId
          · exact ⟨hfoundIds id hfoundId, hout.2⟩
        · exact ⟨hid, fun hin => hother ((filter_sublist.map Clip.id).subset hin)⟩
      · rintro ⟨hid, hout⟩
        by_cases hfoundId : id ∈ found.clips.map Clip.id
        · refine .inl ⟨.inr (.inr hfoundId), ?_⟩
          rintro (hpassed | hin)
          · exact (hpassingFresh id hpassed).1 hfoundId
          · exact hout hin
        · exact .inr ⟨hid, hfoundId⟩
  | @halved clip _ cut id hclip hhalved hfresh hperm =>
    have hmem : id ∈ clipIdentities next.doc :=
      (hkept id).mpr (.inl ⟨(hlastIds id).mpr (.inr (.inl mem_cons_self)), hmadeOutside id mem_cons_self⟩)
    refine .inl ⟨id, any_eq_true.mpr ⟨clip, hclip, cut.straddles⟩,
      nextId_of_ok (hmade id mem_cons_self), by simpa using hstandingNext, hmem, fun other hother => ?_⟩
    rw [Finset.mem_insert]
    rcases (hkept other).mp hother with ⟨hid, hout⟩ | ⟨hid, -⟩
    · rcases (hlastIds other).mp hid with hpassed | hmadeId | hfoundId
      · exact absurd (hpassingInside other hpassed) hout
      · exact .inl (mem_singleton.mp hmadeId)
      · exact .inr (hfoundIds other hfoundId)
    · exact .inr hid

/-! ## Clearing every track -/

/-- The id after the highest one, when an id above the others has come. -/
theorem nextId_eq {present : Finset ClipId} {id : ℕ} (hmem : id ∈ present) (hle : ∀ other : ℕ, other ∈ present → other ≤ id) :
    nextId present = id + 1 :=
  congrArg (· + 1) (le_antisymm (Finset.sup_le hle) (Finset.le_sup (f := fun id : ClipId => id) hmem))

theorem straddles_of_clipEnd (h : draft.doc.clipEnd = start.clipEnd) :
    straddles draft.doc at_ = straddles start at_ := by
  funext clip
  rw [straddles, straddles, h]

theorem isInside_of_clipEnd (h : draft.doc.clipEnd = start.clipEnd) :
    isInside draft.doc range = isInside start range := by
  funext clip
  rw [isInside, isInside, h]

/-- A document in the course of an overwrite, before the given tracks are cleared. So many clips were made that
stay, and they have the ids from the first one on. -/
structure Clearing (start : Document) (range : FrameRange) (first : ℕ) (count : ℕ) (targets : List TrackId)
    (draft : Draft) : Prop where
  distinct : Distinct draft.doc
  clipEnd : draft.doc.clipEnd = start.clipEnd
  tracks : ∀ track ∈ targets, trackOf draft.doc track = trackOf start track
  kept : ∀ id : ℕ, id ∈ standing draft.events ↔ first ≤ id ∧ id < first + count
  there : standing draft.events ⊆ clipIdentities draft.doc
  next : count = 0 ∧ firstKept start range (clipIdentities draft.doc) targets = first ∨
    0 < count ∧ nextId (clipIdentities draft.doc) = first + count ∧
      ∀ track ∈ targets, ∀ found, trackOf start track = .ok found → ∀ id : ℕ, id ∈ found.clips.map Clip.id → id < first

variable {first count : ℕ} {targets : List TrackId}

theorem Clearing.step (hclearing : Clearing start range first count (track :: targets) draft)
    (hfresh : track ∉ targets) (htrack : trackOf start track = .ok found)
    (hrange : range.start < range.stop) (hapart : ApartOn start found.clips)
    (h : clearTrackRange range draft track = .ok next) :
    Clearing start range first (count + if isStraddled start range.stop track then 1 else 0) targets next := by
  have hdraftTrack : trackOf draft.doc track = .ok found := (hclearing.tracks track mem_cons_self).trans htrack
  have hbelow : ∀ id ∈ standing draft.events, id ∉ found.clips.map Clip.id := by
    intro (id : ℕ) hid hfound
    rw [hclearing.kept] at hid
    rcases hclearing.next with ⟨rfl, -⟩ | ⟨-, -, hlt⟩
    · omega
    · have := hlt track mem_cons_self found htrack id hfound
      omega
  have hapart' : ApartOn draft.doc found.clips := by
    rw [ApartOn, hclearing.clipEnd]
    exact hapart
  have hcleared := cleared_of_ok hclearing.distinct hdraftTrack hrange hapart' hbelow hclearing.there h
  have hcount : isStraddled start range.stop track = found.clips.any (straddles draft.doc range.stop) := by
    rw [isStraddled, htrack, straddles_of_clipEnd hclearing.clipEnd]
  have htracks : ∀ other ∈ targets, trackOf next.doc other = trackOf start other := by
    intro other hother
    have hne : other ≠ track := fun heq => hfresh (heq ▸ hother)
    rw [hcleared.others other hne, hclearing.tracks other (mem_cons_of_mem _ hother)]
  have hclipEnd : next.doc.clipEnd = start.clipEnd := hcleared.clipEnd.trans hclearing.clipEnd
  have hstays : standing draft.events ⊆ clipIdentities next.doc := fun id hid =>
    hcleared.stays id (hclearing.there hid) (hbelow id hid)
  rcases hcleared.ids with ⟨id, hany, hid, hstanding, hmem, hsubset⟩ | ⟨hany, hstanding, hids⟩
  · rw [hcount, hany]
    have hlt : ∀ other : ℕ, other ∈ clipIdentities draft.doc → other < id := fun other hother =>
      hid ▸ lt_nextId hother
    have hnext : nextId (clipIdentities next.doc) = id + 1 := by
      refine nextId_eq hmem fun other hother => ?_
      rcases Finset.mem_insert.mp (hsubset hother) with rfl | hother
      · exact le_refl _
      · exact (hlt other hother).le
    have hkept : (∀ id : ℕ, id ∈ standing next.events ↔ first ≤ id ∧ id < first + (count + 1)) ∧
        id + 1 = first + (count + 1) := by
      have heq : id = first + count := by
        rcases hclearing.next with ⟨rfl, hfirst⟩ | ⟨-, hfirst, -⟩
        · rw [firstKept, hcount, hany] at hfirst
          exact hid.trans hfirst
        · exact hid.trans hfirst
      refine ⟨?_, by omega⟩
      intro other
      rw [hstanding, Finset.mem_insert, hclearing.kept]
      omega
    refine ⟨hcleared.distinct, hclipEnd, htracks, hkept.1, ?_, .inr ⟨Nat.succ_pos count, hnext.trans hkept.2, ?_⟩⟩
    · rw [hstanding]
      exact Finset.insert_subset hmem hstays
    · intro other hother found' hfound' id' hid'
      rcases hclearing.next with ⟨rfl, hfirst⟩ | ⟨-, -, hbefore⟩
      · have hdraft := (hclearing.tracks other (mem_cons_of_mem _ hother)).trans hfound'
        have := hlt id' (mem_clipIdentities_of_track hdraft hid')
        omega
      · exact hbefore other (mem_cons_of_mem _ hother) found' hfound' id' hid'
  · rw [hcount, hany, if_neg Bool.false_ne_true]
    have hinside : insideIds start range track
        = ((found.clips.filter (isInside draft.doc range)).map Clip.id).toFinset := by
      rw [insideIds, htrack, isInside_of_clipEnd hclearing.clipEnd]
    refine ⟨hcleared.distinct, hclipEnd, htracks, fun id => hstanding ▸ hclearing.kept id, ?_, ?_⟩
    · rw [hstanding]
      exact hstays
    · rcases hclearing.next with ⟨rfl, hfirst⟩ | ⟨hpos, hfirst, hbefore⟩
      · rw [firstKept, hcount, hany, if_neg Bool.false_ne_true] at hfirst
        exact .inl ⟨rfl, by rw [hids, ← hinside, hfirst]⟩
      · refine .inr ⟨hpos, ?_, fun other hother => hbefore other (mem_cons_of_mem _ hother)⟩
        have hlast : first + count - 1 ∈ clipIdentities next.doc := by
          refine hstays ?_
          rw [hclearing.kept]
          omega
        have hle (other : ℕ) (hother : other ∈ clipIdentities next.doc) : other ≤ first + count - 1 := by
          rw [hids] at hother
          have := lt_nextId (Finset.mem_sdiff.mp hother).1
          omega
        rw [nextId_eq hlast hle]
        omega

/-- Every target is cleared. -/
theorem Clearing.run (hclearing : Clearing start range first count targets draft) (hnodup : targets.Nodup)
    (htracks : ∀ track ∈ targets, ∃ found, trackOf start track = .ok found ∧ ApartOn start found.clips)
    (hrange : range.start < range.stop) (h : Draft.each (clearTrackRange range) draft targets = .ok next) :
    Clearing start range first (count + targets.countP (isStraddled start range.stop)) [] next := by
  induction targets generalizing draft count with
  | nil =>
    obtain rfl := Except.ok.inj h
    exact hclearing
  | cons track targets ih =>
    rw [Draft.each, bind_eq_ok] at h
    obtain ⟨cleared, hcleared, h⟩ := h
    rw [nodup_cons] at hnodup
    obtain ⟨found, hfound, hapart⟩ := htracks track mem_cons_self
    have hstep := hclearing.step hnodup.1 hfound hrange hapart hcleared
    have hrest := ih hstep hnodup.2 (fun other hother => htracks other (mem_cons_of_mem _ hother)) h
    rw [countP_cons, Nat.add_comm (List.countP _ _), ← Nat.add_assoc]
    exact hrest

/-! ## Adding the new clips -/

/-- So many clips were made that stay, and they have the ids from the first one to the last one there is. -/
structure Placing (first count : ℕ) (draft : Draft) : Prop where
  kept : ∀ id : ℕ, id ∈ standing draft.events ↔ first ≤ id ∧ id < first + count
  next : nextId (clipIdentities draft.doc) = first + count

theorem Clearing.placing (h : Clearing start range first count [] draft) : Placing first count draft := by
  refine ⟨h.kept, ?_⟩
  rcases h.next with ⟨rfl, hfirst⟩ | ⟨-, hnext, -⟩
  · exact hfirst
  · exact hnext

theorem clipIdentities_of_gains {after : Document} {made : Identity} (h : Gains doc after made) :
    clipIdentities after = insert made.id (clipIdentities doc) := by
  ext id
  rw [mem_clipIdentities, Finset.mem_insert, mem_clipIdentities, ids, h.identities, Multiset.map_cons,
    Multiset.mem_cons]
  rfl

theorem clipIdentities_of_kept {after : Document} (h : Kept doc after) : clipIdentities after = clipIdentities doc := by
  ext id
  rw [mem_clipIdentities, mem_clipIdentities, ids, ids, h.identities]

section

variable (hplacing : Placing first count draft)

include hplacing

theorem Placing.add {asset : AssetId} {source : FrameRange}
    (h : draft.add track asset at_ source = .ok next) : Placing first (count + 1) next := by
  rw [Draft.add, Draft.make, bind_eq_ok] at h
  obtain ⟨doc, hdoc, h⟩ := h
  obtain ⟨id, hid, h⟩ := bind_eq_ok.mp h
  obtain rfl := Except.ok.inj h
  obtain ⟨-, id', hid', hgains⟩ := addClip_gains track asset at_ source doc hdoc
  obtain rfl := Except.ok.inj (hid'.symm.trans hid)
  have hnext : id' = first + count := (nextId_of_ok hid).trans hplacing.next
  have hids := clipIdentities_of_gains hgains
  refine ⟨fun (other : ℕ) => ?_, ?_⟩
  · have heq : other = id' ↔ other = first + count := by rw [hnext]
    rw [standing_made, Finset.mem_insert, hplacing.kept, heq]
    omega
  · have hle (other : ℕ) (hother : other ∈ clipIdentities doc) : other ≤ first + count := by
      rw [hids, Finset.mem_insert] at hother
      rcases hother with rfl | hother
      · exact hnext.le
      · have := lt_nextId hother
        have := hplacing.next
        omega
    have hmem : first + count ∈ clipIdentities doc := by
      rw [hids, ← hnext]
      exact Finset.mem_insert_self id' _
    rw [nextId_eq hmem hle]
    omega

theorem Placing.addEach {asset : AssetId} {source : FrameRange} {tracks : List TrackId} {clips : List ClipId}
    (h : addEach asset at_ source draft tracks = .ok (next, clips)) :
    Placing first (count + tracks.length) next := by
  induction tracks generalizing draft count clips with
  | nil =>
    obtain ⟨rfl, -⟩ := Prod.mk.inj (Except.ok.inj h)
    exact hplacing
  | cons track tracks ih =>
    rw [Edits.addEach, bind_eq_ok] at h
    obtain ⟨id, -, h⟩ := h
    obtain ⟨added, hadded, h⟩ := bind_eq_ok.mp h
    obtain ⟨⟨last, rest⟩, hrest, h⟩ := bind_eq_ok.mp h
    obtain ⟨rfl, -⟩ := Prod.mk.inj (Except.ok.inj h)
    have hlast := ih (hplacing.add hadded) hrest
    rw [length_cons, Nat.add_comm tracks.length, ← Nat.add_assoc]
    exact hlast

theorem Placing.keep {edit : Document → Except OpError Document} (hkept : Returns (Kept draft.doc) (edit draft.doc))
    (h : draft.keep edit = .ok next) : Placing first count next := by
  rw [Draft.keep, bind_eq_ok] at h
  obtain ⟨doc, hdoc, h⟩ := h
  obtain rfl := Except.ok.inj h
  exact ⟨hplacing.kept, by rw [clipIdentities_of_kept (hkept doc hdoc), hplacing.next]⟩

theorem Placing.linkPair {clips : List ClipId} (h : linkPair draft clips = .ok next) : Placing first count next := by
  rw [Edits.linkPair] at h
  split at h
  · exact hplacing.keep (linkClips_kept clips) h
  · obtain rfl := Except.ok.inj h
    exact hplacing

end

/-! ## Overwrites -/

/-- The range and the tracks that an operation overwrites. -/
def Operation.overwrites (doc : Document) : Operation → Option (FrameRange × List TrackId)
  | .threePointEdit track asset marks .overwrite => do
    let media ← doc.asset asset
    let ranges ← (deriveThreePointRanges doc media marks).toOption
    some (ranges.2, [track])
  | .patchedThreePointEdit asset marks .overwrite routes => do
    let media ← doc.asset asset
    let ranges ← (deriveThreePointRanges doc media marks).toOption
    some (ranges.2, routes.list.map fun route => route.2.2)
  | _ => none

/-- The operation gives a new clip the id of one that is there before. -/
def ReusesId (doc : Document) (operation : Operation) : Prop :=
  ∃ overwritten ∈ operation.overwrites doc, OverwriteReuses doc overwritten.1 overwritten.2

instance (doc : Document) (operation : Operation) : Decidable (ReusesId doc operation) := by
  unfold ReusesId
  infer_instance

theorem placing_of_clear {cleared : Draft} (hfits : start.Fits) (hnodup : targets.Nodup)
    (htracks : ∀ track ∈ targets, ∃ found, trackOf start track = .ok found) (hrange : range.start < range.stop)
    (h : Draft.each (clearTrackRange range) { doc := start, events := [] } targets = .ok cleared) :
    Placing (firstKept start range (clipIdentities start) targets) (targets.countP (isStraddled start range.stop))
      cleared := by
  have hstart : Clearing start range (firstKept start range (clipIdentities start) targets) 0 targets
      { doc := start, events := [] } :=
    { distinct := distinct_of_fits hfits
      clipEnd := rfl
      tracks := fun _ _ => rfl
      kept := fun id => by simp
      there := Finset.empty_subset _
      next := .inl ⟨rfl, rfl⟩ }
  have hapart (track : TrackId) (htrack : track ∈ targets) :
      ∃ found, trackOf start track = .ok found ∧ ApartOn start found.clips := by
    obtain ⟨found, hfound⟩ := htracks track htrack
    exact ⟨found, hfound, apartOn_of_apart (hfits.apart found (mem_of_trackOf hfound))⟩
  have hrun := (hstart.run hnodup hapart hrange h).placing
  rwa [Nat.zero_add] at hrun

variable {operation : Operation}

/-- The ids that an overwrite gives are the ones from the first one on. -/
theorem placing_of_overwrites (hfits : start.Fits) (hstep : operation.step start = .ok draft)
    (hoverwrites : operation.overwrites start = some (range, targets)) :
    Placing (firstKept start range (clipIdentities start) targets) (keptCount start range targets) draft := by
  obtain ⟨edited, hedited, hcandidate, hevents, -⟩ := step_ok hstep
  have hsame := clipIdentities_of_kept (recomputeDuration_kept draft.doc hcandidate)
  suffices hplacing : Placing (firstKept start range (clipIdentities start) targets)
      (keptCount start range targets) edited by
    exact ⟨hevents ▸ hplacing.kept, by rw [hsame, hplacing.next]⟩
  have hoption {media : MediaAsset} {marks : Marks} {ranges : FrameRange × FrameRange}
      (hranges : deriveThreePointRanges start media marks = .ok ranges) :
      (deriveThreePointRanges start media marks).toOption = some ranges := by
    rw [hranges]
    rfl
  cases operation with
  | threePointEdit track asset marks mode =>
    cases mode with
    | insert => cases hoverwrites
    | overwrite =>
      rw [Operation.draft, Operation.edit, threePointEdit] at hedited
      simp only [bind_eq_ok, okOr_eq_ok] at hedited
      obtain ⟨_, -, media, hmedia, found, hfound, _, -, ⟨source, timeline⟩, hranges, _, -, room, hroom, hadd⟩ := hedited
      simp only [Operation.overwrites, hmedia, hoption hranges, Option.bind_eq_bind, Option.bind_some,
        Option.some.injEq, Prod.mk.injEq] at hoverwrites
      obtain ⟨rfl, rfl⟩ := hoverwrites
      have hexists (other : TrackId) (hother : other ∈ [track]) : ∃ found, trackOf start other = .ok found := by
        obtain rfl := mem_singleton.mp hother
        exact ⟨found, hfound⟩
      have hcleared := placing_of_clear hfits (nodup_singleton track) hexists (range_of_derive hranges) hroom
      exact hcleared.add hadd
  | patchedThreePointEdit asset marks mode routes =>
    cases mode with
    | insert => cases hoverwrites
    | overwrite =>
      rw [Operation.draft, Operation.edit, patchedThreePointEdit] at hedited
      simp only [bind_eq_ok, okOr_eq_ok] at hedited
      obtain ⟨_, -, media, hmedia, targets', hroutes, ⟨source, timeline⟩, hranges, _, -, room, hroom,
        ⟨added, clips⟩, hadd, hlink⟩ := hedited
      obtain ⟨rfl, hnodup, hexists⟩ := routes_of_ok hroutes
      simp only [Operation.overwrites, hmedia, hoption hranges, Option.bind_eq_bind, Option.bind_some,
        Option.some.injEq, Prod.mk.injEq] at hoverwrites
      obtain ⟨rfl, rfl⟩ := hoverwrites
      have hcleared := placing_of_clear hfits hnodup hexists (range_of_derive hranges) hroom
      exact (hcleared.addEach hadd).linkPair hlink
  | _ => cases hoverwrites

/-- An operation that makes and removes clips is an overwrite. -/
theorem overwrites_of_makes (hstep : operation.step start = .ok draft) (hmakes : operation.makes)
    (hremoves : operation.removes) :
    ∃ overwritten, operation.overwrites start = some overwritten := by
  obtain ⟨edited, hedited, -⟩ := step_ok hstep
  cases operation with
  | threePointEdit track asset marks mode =>
    obtain rfl : mode = .overwrite := hremoves
    rw [Operation.draft, Operation.edit, threePointEdit] at hedited
    simp only [bind_eq_ok, okOr_eq_ok] at hedited
    obtain ⟨_, -, media, hmedia, _, -, _, -, ranges, hranges, -⟩ := hedited
    rw [Operation.overwrites, hmedia]
    exact ⟨(ranges.2, [track]), by simp [hranges, Except.toOption]⟩
  | patchedThreePointEdit asset marks mode routes =>
    obtain rfl : mode = .overwrite := hremoves
    rw [Operation.draft, Operation.edit, patchedThreePointEdit] at hedited
    simp only [bind_eq_ok, okOr_eq_ok] at hedited
    obtain ⟨_, -, media, hmedia, _, -, ranges, hranges, -⟩ := hedited
    rw [Operation.overwrites, hmedia]
    exact ⟨(ranges.2, routes.list.map fun route => route.2.2), by simp [hranges, Except.toOption]⟩
  | addClip | addTitle | addFreezeFrame | addAdjustmentClip | addSolidClip | splitClip => exact hremoves.elim
  | _ => exact hmakes.elim

/-- What an operation makes and keeps is new, exactly if it does not use an id again. -/
theorem disjoint_iff (hfits : start.Fits) (hstep : operation.step start = .ok draft) :
    Disjoint (standing draft.events) (clipIdentities start) ↔ ¬ ReusesId start operation := by
  cases hoverwrites : operation.overwrites start with
  | none =>
    have hreuses : ¬ ReusesId start operation := by
      rintro ⟨overwritten, hmem, -⟩
      rw [hoverwrites] at hmem
      cases hmem
    refine iff_of_true ?_ hreuses
    let allowed : Allowed :=
      { binds := fun _ _ => True
        recolors := True
        makes := operation.makes
        removes := operation.removes }
    have hsteps : Steps allowed { doc := start, events := [] } draft :=
      steps_step (fun _ _ => trivial) (fun _ => trivial) id id hstep
    by_cases hmakes : operation.makes
    · have hremoves : ¬ operation.removes := by
        intro hremoves
        obtain ⟨overwritten, hsome⟩ := overwrites_of_makes hstep hmakes hremoves
        rw [hoverwrites] at hsome
        cases hsome
      exact disjoint_of_not_removes hremoves hfits.clipIds hsteps
    · exact disjoint_of_not_makes hmakes hsteps
  | some overwritten =>
    obtain ⟨range, targets⟩ := overwritten
    have hplacing := placing_of_overwrites hfits hstep hoverwrites
    rw [Finset.disjoint_right]
    constructor
    · rintro hdisjoint ⟨overwritten, hmem, id, hid, hle, hlt⟩
      obtain rfl := Option.some.inj (hoverwrites.symm.trans hmem)
      exact hdisjoint hid ((hplacing.kept id).mpr ⟨hle, hlt⟩)
    · intro hreuses id hid hstanding
      obtain ⟨hle, hlt⟩ := (hplacing.kept id).mp hstanding
      exact hreuses ⟨(range, targets), hoverwrites, id, hid, hle, hlt⟩

/-! ## Batches -/

/-- What holds of each operation of a batch, of the document before it, and of the effect that is reported. -/
def EachEffect (P : Document → Operation → Draft → OperationIdentityEffect → Prop) (doc : Document) :
    List Operation → List OperationIdentityEffect → Prop
  | [], effects => effects = []
  | operation :: operations, effects => ∃ draft effect rest, operation.step doc = .ok draft ∧
      effects = effect :: rest ∧ P doc operation draft effect ∧ EachEffect P draft.doc operations rest

/-- What holds of every accepted operation on a valid document holds of those of a batch. -/
theorem eachEffect_of_batch {P : Document → Operation → Draft → OperationIdentityEffect → Prop}
    (hP : ∀ before operation draft, before.Valid → operation.step before = .ok draft → P before operation draft
        (identityEffect (clipIdentities before) draft.doc (operation.splitParent before)))
    {last : Document} {operations : List Operation} {effects : List OperationIdentityEffect}
    (h : applyBatch doc operations = .ok (last, effects)) : EachEffect P doc operations effects := by
  rw [applyBatch, unless_eq_ok, bind_eq_ok] at h
  obtain ⟨-, ⟨⟩, hvalid, h⟩ := h
  rw [mapError_eq_ok, mapError_eq_ok, ← Document.valid_iff] at hvalid
  rw [mapError_eq_ok] at h
  generalize 0 = done at h
  induction operations generalizing doc effects done with
  | nil =>
    obtain ⟨-, rfl⟩ := Prod.mk.inj (Except.ok.inj h)
    rfl
  | cons operation operations ih =>
    rw [applyEach, bind_eq_ok] at h
    obtain ⟨draft, hstep, h⟩ := h
    obtain ⟨⟨last', rest⟩, hrest, h⟩ := bind_eq_ok.mp h
    obtain ⟨rfl, rfl⟩ := Prod.mk.inj (Except.ok.inj h)
    rw [mapError_eq_ok] at hstep
    obtain ⟨_, -, -, -, hvalid'⟩ := step_ok hstep
    exact ⟨draft, _, rest, hstep, rfl, hP doc operation draft hvalid hstep, ih hvalid' (done + 1) hrest⟩

/-- The effect of each operation of a batch is truthful, exactly if the operation does not give a new clip the id
of one that it deletes. -/
theorem effects_truthful_iff {last : Document} {operations : List Operation}
    {effects : List OperationIdentityEffect} (h : applyBatch doc operations = .ok (last, effects)) :
    EachEffect (fun before operation draft effect =>
      Truthful (clipIdentities before) draft.events effect ↔ ¬ ReusesId before operation) doc operations effects := by
  refine eachEffect_of_batch (fun before operation draft hvalid hstep => ?_) h
  have hsteps : Steps ⟨fun _ _ => True, True, True, True⟩ { doc := before, events := [] } draft :=
    steps_step (fun _ _ => trivial) (fun _ => trivial) (fun _ => trivial) (fun _ => trivial) hstep
  have haccounted := (accounted_start hvalid.fits.clipIds).steps hsteps
  exact (haccounted.truthful_iff _).trans (disjoint_iff hvalid.fits hstep)

/-- An overwrite of the one clip there is. -/
def overwriteClip : Operation := .threePointEdit 1 1 ⟨some 20, some 21, some 5, none⟩ .overwrite

/-- With a clip behind it, the clip that is overwritten does not leave its id. -/
theorem effects_truthful_iff_oneFrame : ∃ last effects,
    applyBatch oneFrame [.addClip 1 1 10 ⟨0, 1⟩, overwriteClip] = .ok (last, effects) ∧
      EachEffect (fun before operation draft effect =>
        Truthful (clipIdentities before) draft.events effect ↔ ¬ ReusesId before operation) oneFrame
        [.addClip 1 1 10 ⟨0, 1⟩, overwriteClip] effects := by
  have hok : (applyBatch oneFrame [.addClip 1 1 10 ⟨0, 1⟩, overwriteClip]).toOption.isSome = true := by
    decide +kernel
  cases hbatch : applyBatch oneFrame [.addClip 1 1 10 ⟨0, 1⟩, overwriteClip] with
  | error error =>
    rw [hbatch] at hok
    cases hok
  | ok result => exact ⟨result.1, result.2, rfl, effects_truthful_iff hbatch⟩

/-- The clip that is overwritten leaves its id to the new one, and the effect calls it retained. -/
theorem overwrite_reuses_id : oneFrame.validate = .ok () ∧ ∃ last effect draft,
    applyBatch oneFrame [overwriteClip] = .ok (last, [effect]) ∧ overwriteClip.step oneFrame = .ok draft ∧
      ¬ Truthful (clipIdentities oneFrame) draft.events effect := by
  refine ⟨by decide +kernel, ?_⟩
  have hok : (overwriteClip.step oneFrame).toOption.any (fun draft =>
      decide (ClipEvent.removed 1 ∈ draft.events ∧ 1 ∈ clipIdentities draft.doc)) = true := by decide +kernel
  have hvalid : oneFrame.validate = .ok () := by decide +kernel
  cases hstep : overwriteClip.step oneFrame with
  | error error =>
    rw [hstep] at hok
    cases hok
  | ok draft =>
    rw [hstep] at hok
    obtain ⟨hremoved, hafter⟩ := of_decide_eq_true hok
    refine ⟨draft.doc, identityEffect (clipIdentities oneFrame) draft.doc none, draft, ?_, rfl, fun htruthful => ?_⟩
    · rw [applyBatch, hvalid, applyEach, hstep]
      rfl
    · have hbefore : (1 : ClipId) ∈ clipIdentities oneFrame := by decide
      exact htruthful.retained 1 (Finset.mem_inter.mpr ⟨hbefore, hafter⟩) hremoved

end Kinewright.Edits
