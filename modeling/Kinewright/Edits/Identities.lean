import Kinewright.Edits.Steps

/-!
# Which clips are still the same

`operation.rs`: the identity effect of an operation is computed from the ids before and after. It is compared
with what the operation did: which clips it made, and which it removed.
-/

namespace Kinewright.Edits

open Fallible Model
open List hiding Disjoint
open Finset hiding cons map_cons map_map mem_map

/-! ## What the events say -/

/-- The ids of the clips that were made and are still there. -/
def standing : List ClipEvent → Finset ClipId :=
  List.foldl (fun ids event => match event with
    | .made id => insert id ids
    | .removed id => ids.erase id) ∅

/-- The effect says of the clips of the documents before and after what the events say. A clip that was both
made and removed is in neither document. -/
structure Truthful (before : Finset ClipId) (events : List ClipEvent) (effect : OperationIdentityEffect) : Prop where
  retained : ∀ id ∈ effect.retained, ClipEvent.removed id ∉ events
  created : ∀ id ∈ standing events, id ∈ effect.created
  deleted : ∀ id ∈ before, ClipEvent.removed id ∈ events → id ∈ effect.deleted

variable {allowed : Allowed} {start doc : Document} {draft next : Draft} {id : ClipId} {events : List ClipEvent}

@[simp] theorem standing_nil : standing [] = ∅ := rfl

theorem standing_made : standing (events ++ [.made id]) = insert id (standing events) := by
  rw [standing, foldl_append]
  rfl

theorem standing_mades (ids : List ClipId) : standing (events ++ ids.map .made) = ids.toFinset ∪ standing events := by
  induction ids generalizing events with
  | nil => simp
  | cons id ids ih =>
    rw [map_cons, append_cons, ih, standing_made, toFinset_cons, union_insert, insert_union]

theorem standing_removed (ids : List ClipId) :
    standing (events ++ ids.map .removed) = standing events \ ids.toFinset := by
  induction ids generalizing events with
  | nil => simp
  | cons id ids ih =>
    have hfirst : standing (events ++ [.removed id]) = (standing events).erase id := by
      rw [standing, foldl_append]
      rfl
    rw [map_cons, append_cons, ih, hfirst]
    ext other
    simp only [mem_sdiff, mem_erase, toFinset_cons, mem_insert, mem_toFinset]
    tauto

/-- The ids of the clips, each as often as there is a clip of it. -/
def ids (doc : Document) : Multiset ClipId := (identities doc.tracks).map Identity.id

theorem mem_clipIdentities : id ∈ clipIdentities doc ↔ id ∈ ids doc := by
  rw [clipIdentities, mem_toFinset, mem_map, ids, Multiset.mem_map]
  constructor
  · rintro ⟨clip, hclip, rfl⟩
    exact ⟨identity clip, mem_identities hclip, rfl⟩
  · rintro ⟨found, hfound, rfl⟩
    obtain ⟨clip, hclip, rfl⟩ := mem_identities_iff.mp hfound
    exact ⟨clip, hclip, rfl⟩

theorem ids_nodup_iff : (ids doc).Nodup ↔ (doc.clips.map Clip.id).Nodup := by
  have heq : ids doc = ↑(doc.clips.map Clip.id) := by
    rw [ids, identities, Multiset.map_coe, map_flatMap, Document.clips, map_flatMap]
    congr 2
    funext track
    rw [map_map]
    rfl
  rw [heq, Multiset.coe_nodup]

/-! ## The clips that are there -/

/-- The clips that are there are the ones of before that were not removed, and the ones that were made. -/
structure Accounted (before : Finset ClipId) (draft : Draft) : Prop where
  nodup : (ids draft.doc).Nodup
  ids : ∀ id, id ∈ ids draft.doc ↔ (id ∈ before ∧ ClipEvent.removed id ∉ draft.events) ∨ id ∈ standing draft.events
  apart : ∀ id ∈ standing draft.events, ¬ (id ∈ before ∧ ClipEvent.removed id ∉ draft.events)

variable {before : Finset ClipId}

section

variable (h : Accounted before draft)

include h

theorem Accounted.make {made : Identity}
    (hid : draft.doc.nextClipId = .ok made.id) (hgains : Gains draft.doc doc made) :
    Accounted before { doc, events := draft.events ++ [.made made.id] } := by
  have hfresh : made.id ∉ Edits.ids draft.doc := by
    rw [← mem_clipIdentities, clipIdentities, mem_toFinset]
    exact nextClipId_fresh hid
  have hids : Edits.ids doc = made.id ::ₘ Edits.ids draft.doc := by
    rw [Edits.ids, hgains.identities, Multiset.map_cons, Edits.ids]
  have hremoved (id : ClipId) : ClipEvent.removed id ∈ draft.events ++ [.made made.id] ↔
      ClipEvent.removed id ∈ draft.events := by simp
  refine ⟨?_, fun id => ?_, fun id hstanding hkept => ?_⟩
  · rw [hids, Multiset.nodup_cons]
    exact ⟨hfresh, h.nodup⟩
  · rw [hids, Multiset.mem_cons, h.ids, hremoved, standing_made, mem_insert]
    exact or_left_comm
  · rw [hremoved] at hkept
    rw [standing_made, mem_insert] at hstanding
    rcases hstanding with rfl | hstanding
    · exact hfresh ((h.ids _).mpr (.inl hkept))
    · exact h.apart id hstanding hkept

theorem Accounted.remove {removed : List Identity}
    (hloses : identities draft.doc.tracks = ↑removed + identities doc.tracks) :
    Accounted before { doc, events := draft.events ++ removed.map fun clip => .removed clip.id } := by
  have hids : Edits.ids draft.doc = ↑(removed.map Identity.id) + Edits.ids doc := by
    rw [Edits.ids, hloses, Multiset.map_add, Multiset.map_coe, Edits.ids]
  have hnodup := h.nodup
  rw [hids, Multiset.nodup_add] at hnodup
  obtain ⟨-, hrest, hdisjoint⟩ := hnodup
  have hevents : (removed.map fun clip => ClipEvent.removed clip.id) = (removed.map Identity.id).map .removed := by
    rw [map_map]
    rfl
  have hremoved (id : ClipId) : ClipEvent.removed id ∈ draft.events ++ (removed.map Identity.id).map .removed ↔
      ClipEvent.removed id ∈ draft.events ∨ id ∈ removed.map Identity.id := by simp
  rw [hevents]
  generalize removed.map Identity.id = gone at *
  refine ⟨hrest, fun id => ?_, fun id hstanding hkept => ?_⟩
  · have hbefore := h.ids id
    rw [hids, Multiset.mem_add] at hbefore
    have hapart : id ∈ gone → id ∉ Edits.ids doc := fun hgone hmem =>
      Multiset.disjoint_left.mp hdisjoint hgone hmem
    rw [hremoved, standing_removed, mem_sdiff, mem_toFinset]
    tauto
  · rw [standing_removed, mem_sdiff] at hstanding
    rw [hremoved, not_or] at hkept
    exact h.apart id hstanding.1 ⟨hkept.1, hkept.2.1⟩

theorem Accounted.step (hstep : Step allowed draft next) : Accounted before next := by
  have hkeeps {doc : Document} (hids : Edits.ids doc = Edits.ids draft.doc) :
      Accounted before { draft with doc } := ⟨hids ▸ h.nodup, fun id => hids ▸ h.ids id, h.apart⟩
  cases hstep with
  | keep _ _ hkept | recolor _ hkept _ => exact hkeeps (congrArg (Multiset.map Identity.id) hkept)
  | make made hid hgains _ _ => exact h.make hid hgains
  | remove removed _ hloses _ => exact h.remove hloses
  | rebind id old asset others _ _ hbefore hafter _ =>
    refine hkeeps ?_
    rw [Edits.ids, Edits.ids, hbefore, hafter, Multiset.map_cons, Multiset.map_cons]

theorem Accounted.steps (hsteps : Steps allowed draft next) : Accounted before next := by
  induction hsteps with
  | refl => exact h
  | tail _ hstep ih => exact ih.step hstep

end

/-- Nothing has happened to a document yet. -/
theorem accounted_start (hids : (start.clips.map Clip.id).Nodup) :
    Accounted (clipIdentities start) { doc := start, events := [] } := by
  refine ⟨ids_nodup_iff.mpr hids, fun id => ?_, fun id hstanding => absurd hstanding (notMem_empty id)⟩
  rw [← mem_clipIdentities]
  simp

/-- The effect is truthful, exactly if no clip that was made carries an id of before. -/
theorem Accounted.truthful_iff (h : Accounted before draft) (splitParent : Option Clip) :
    Truthful before draft.events (identityEffect before draft.doc splitParent) ↔
      Disjoint (standing draft.events) before := by
  have hmem (id : ClipId) : id ∈ clipIdentities draft.doc ↔
      (id ∈ before ∧ ClipEvent.removed id ∉ draft.events) ∨ id ∈ standing draft.events :=
    mem_clipIdentities.trans (h.ids id)
  rw [Finset.disjoint_left]
  constructor
  · intro htruthful id hstanding hbefore
    have hcreated := htruthful.created id hstanding
    exact (mem_sdiff.mp hcreated).2 hbefore
  · intro hdisjoint
    refine ⟨fun id hretained hremoved => ?_, fun id hstanding => ?_, fun id hbefore hremoved => ?_⟩
    · obtain ⟨hbefore, hafter⟩ := mem_inter.mp hretained
      rcases (hmem id).mp hafter with hkept | hstanding
      · exact hkept.2 hremoved
      · exact hdisjoint hstanding hbefore
    · exact mem_sdiff.mpr ⟨(hmem id).mpr (.inr hstanding), hdisjoint hstanding⟩
    · refine mem_sdiff.mpr ⟨hbefore, fun hafter => ?_⟩
      rcases (hmem id).mp hafter with hkept | hstanding
      · exact hkept.2 hremoved
      · exact hdisjoint hstanding hbefore

/-! ## Steps of one kind -/

/-- Where nothing is removed, a clip that was made has a new id. -/
theorem disjoint_of_not_removes (hkinds : ¬ allowed.removes) (hids : (start.clips.map Clip.id).Nodup)
    (hsteps : Steps allowed { doc := start, events := [] } next) :
    Disjoint (standing next.events) (clipIdentities start) := by
  have hnone : ∀ id, ClipEvent.removed id ∉ next.events := by
    induction hsteps with
    | refl => simp
    | tail _ hstep ih =>
      cases hstep with
      | keep | recolor | rebind => exact ih
      | make => simpa using ih
      | remove _ _ _ hremoves => exact absurd hremoves hkinds
  rw [Finset.disjoint_left]
  intro id hstanding hbefore
  exact ((accounted_start hids).steps hsteps).apart id hstanding ⟨hbefore, hnone id⟩

/-- Where no clip is made, none stands. -/
theorem disjoint_of_not_makes (hkinds : ¬ allowed.makes) (hsteps : Steps allowed { doc := start, events := [] } next) :
    Disjoint (standing next.events) (clipIdentities start) := by
  have hnone : standing next.events = ∅ := by
    induction hsteps with
    | refl => rfl
    | tail _ hstep ih =>
      cases hstep with
      | keep | recolor | rebind => exact ih
      | make _ _ _ _ hmakes => exact absurd hmakes hkinds
      | remove removed _ _ _ =>
        have hevents : (removed.map fun clip => ClipEvent.removed clip.id)
            = (removed.map Identity.id).map .removed := by
          rw [map_map]
          rfl
        rw [hevents, standing_removed, ih, empty_sdiff]
  rw [hnone]
  exact disjoint_empty_left _

end Kinewright.Edits
