import Kinewright.Lib.Runs
import Kinewright.Edits.Steps
import Kinewright.Timeline.Layers

/-!
# Stills are no media ranges

`operation.rs`: a still is held on the timeline as a freeze frame. `add_clip` refuses to make a range of it;
`replace_clip` does not look.
-/

namespace Kinewright.Edits

open Fallible Model Multiset Timeline

/-- No clip of media is a range of a still. -/
def NoStillRanges (doc : Document) : Prop :=
  ∀ clip ∈ doc.clips, clip.content = .media → ∀ media ∈ doc.asset clip.asset, media.kind ≠ .image

instance (doc : Document) : Decidable (NoStillRanges doc) := by
  unfold NoStillRanges
  infer_instance

/-- The assets that the operation binds clips to unseen are no stills. -/
def BindsNoStill (doc : Document) (operation : Operation) : Prop :=
  ∀ asset ∈ operation.rebinds, ∀ media ∈ doc.asset asset, media.kind ≠ .image

/-- The next document, if the operation is accepted. -/
def applied (doc : Document) (operation : Operation) : Option Document := (operation.apply doc).toOption

/-- Every range is of an asset of the pool that is no still. -/
def RangesBound (doc : Document) : Prop :=
  ∀ clip ∈ identities doc.tracks, clip.isMedia = true → ∃ media, doc.asset clip.asset = some media ∧ media.kind ≠ .image

variable {doc start after : Document} {draft next : Draft}

/-! ## Ranges in valid documents -/

theorem RangesBound.noStillRanges (h : RangesBound doc) : NoStillRanges doc := by
  intro clip hclip hcontent media hmedia
  have hisMedia : (identity clip).isMedia = true := by
    rw [identity, hcontent]
    rfl
  obtain ⟨media', hmedia', hkind⟩ := h _ (mem_identities hclip) hisMedia
  obtain rfl := Option.some.inj (hmedia'.symm.trans hmedia)
  exact hkind

/-- The asset of a range of a valid document is in its pool. -/
theorem NoStillRanges.rangesBound (hfits : doc.Fits) (h : NoStillRanges doc) : RangesBound doc := by
  intro found hfound hisMedia
  obtain ⟨clip, hclip, rfl⟩ := mem_identities_iff.mp hfound
  obtain ⟨track, htrack, hmem⟩ := List.mem_flatMap.mp hclip
  have hcontent : clip.content = .media := by simpa [identity, ClipContent.isMedia] using hisMedia
  have hreferences : clip.content.referencesAsset := by
    rw [hcontent]
    rfl
  obtain ⟨media, hmedia, -⟩ := (hfits.clips track htrack clip hmem).asset hreferences
  exact ⟨media, hmedia, h clip hclip hcontent media hmedia⟩

/-! ## One step, one operation, a run -/

/-- Clips are bound to no still, and colours may be written. -/
abbrev notStill : Allowed where
  binds doc asset := ∀ media ∈ doc.asset asset, media.kind ≠ .image
  recolors := True
  makes := True
  removes := True

theorem RangesBound.step (hbound : RangesBound draft.doc) (hstep : Step notStill draft next) :
    RangesBound next.doc := by
  have hkeeps {doc : Document} (hkinds : KindsKept draft.doc doc)
      (hkept : identities doc.tracks = identities draft.doc.tracks) : RangesBound doc := by
    intro clip hclip hisMedia
    obtain ⟨media, hmedia, hkind⟩ := hbound clip (hkept ▸ hclip) hisMedia
    obtain ⟨media', hmedia', heq⟩ := hkinds _ _ hmedia
    exact ⟨media', hmedia', heq ▸ hkind⟩
  cases hstep with
  | keep hkinds _ hkept | recolor hkinds hkept => exact hkeeps hkinds hkept
  | make made hid hgains hbinds _ =>
    intro clip hclip hisMedia
    rw [hgains.identities] at hclip
    rw [asset_of_eq hgains.mediaPool]
    rcases mem_cons.mp hclip with rfl | hclip
    · rcases hbinds hisMedia with ⟨other, hother, hotherMedia, heq⟩ | hkind
      · exact heq ▸ hbound other hother hotherMedia
      · exact hkind
    · exact hbound clip hclip hisMedia
  | remove removed hpool hloses _ =>
    intro clip hclip hisMedia
    rw [asset_of_eq hpool]
    refine hbound clip ?_ hisMedia
    rw [hloses]
    exact mem_add.mpr (.inr hclip)
  | rebind id old asset others hpool hasset hbefore hafter hbinds =>
    intro clip hclip hisMedia
    rw [hafter] at hclip
    rw [asset_of_eq hpool]
    rcases mem_cons.mp hclip with rfl | hclip
    · obtain ⟨media, hmedia⟩ := Option.isSome_iff_exists.mp hasset
      exact ⟨media, hmedia, hbinds media hmedia⟩
    · refine hbound clip ?_ hisMedia
      rw [hbefore]
      exact mem_cons_of_mem hclip

theorem RangesBound.steps (hbound : RangesBound draft.doc) (hsteps : Steps notStill draft next) :
    RangesBound next.doc := by
  induction hsteps with
  | refl => exact hbound
  | tail _ hstep ih => exact ih.step hstep

theorem applied_step {operation : Operation} (h : applied doc operation = some after) :
    doc.validate = .ok () ∧ ∃ draft, operation.step doc = .ok draft ∧ draft.doc = after := by
  have hok : operation.apply doc = .ok after := by
    rw [applied] at h
    cases hresult : operation.apply doc with
    | error error =>
      rw [hresult] at h
      cases h
    | ok other =>
      rw [hresult] at h
      exact congrArg Except.ok (Option.some.inj h)
  rw [Operation.apply, bind_eq_ok] at hok
  obtain ⟨⟨⟩, hvalid, hok⟩ := hok
  obtain ⟨draft, hdraft, hok⟩ := bind_eq_ok.mp hok
  exact ⟨hvalid, draft, hdraft, Except.ok.inj hok⟩

/-- Stills do not become ranges, as long as no clip is replaced by one. -/
theorem noStillRanges_run (hvalid : start.validate = .ok ()) (hstart : NoStillRanges start)
    (hrun : Runs.Run applied BindsNoStill start doc) : NoStillRanges doc := by
  have hbound : RangesBound doc := by
    refine hrun.invariant (fun doc after operation hbound hbinds hafter => ?_)
      (hstart.rangesBound (validateDocument_ok hvalid))
    obtain ⟨-, draft, hstep, rfl⟩ := applied_step hafter
    exact RangesBound.steps hbound (steps_step hbinds (fun _ => trivial) (fun _ => trivial) (fun _ => trivial) hstep)
  exact hbound.noStillRanges

/-! ## A replaced clip -/

/-- A still as it is imported, of one frame. -/
def still : MediaAsset := { demoAsset with id := 2, path := "b.png", name := "b", duration := 1, kind := .image }

/-- One frame of a video, and a still in the pool. -/
def oneFrame : Document :=
  { demoDocument with
    tracks :=
      [{ id := 1
         kind := .video
         syncLock := false
         clips := [{ demoClip with sourceRange := { start := 10, stop := 11 } }] }]
    mediaPool := [demoAsset, still]
    fps := { numerator := 24, denominator := 1 }
    duration := 6 }

/-- A run without replacements by a still; here the clip is replaced by another frame of its video. -/
theorem noStillRanges_run_oneFrame : ∃ doc, applied oneFrame (.replaceClip 1 1 ⟨20, 21⟩) = some doc ∧
    NoStillRanges doc := by
  have hbinds : BindsNoStill oneFrame (.replaceClip 1 1 ⟨20, 21⟩) := by
    rintro asset ⟨⟩ media ⟨⟩
    decide
  obtain ⟨doc, happlied⟩ : ∃ doc, applied oneFrame (.replaceClip 1 1 ⟨20, 21⟩) = some doc :=
    Option.isSome_iff_exists.mp (by decide +kernel)
  exact ⟨doc, happlied, noStillRanges_run (by decide +kernel) (by decide +kernel)
    (.step _ .refl hbinds happlied)⟩

/-- A clip of media is replaced by a still, and is a range of it. -/
theorem replaceClip_binds_still : oneFrame.validate = .ok () ∧ NoStillRanges oneFrame ∧
    ∃ doc, (Operation.replaceClip 1 2 ⟨0, 1⟩).apply oneFrame = .ok doc ∧ ¬ NoStillRanges doc := by
  refine ⟨by decide +kernel, by decide +kernel, ?_⟩
  have hok : ((Operation.replaceClip 1 2 ⟨0, 1⟩).apply oneFrame).toOption.any
      (fun doc => decide (¬ NoStillRanges doc)) = true := by decide +kernel
  cases hresult : (Operation.replaceClip 1 2 ⟨0, 1⟩).apply oneFrame with
  | error error =>
    rw [hresult] at hok
    cases hok
  | ok doc =>
    rw [hresult] at hok
    exact ⟨doc, rfl, of_decide_eq_true hok⟩

end Kinewright.Edits
