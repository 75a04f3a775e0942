import Kinewright.Timeline.Layers
import Kinewright.Edits.Single

/-!
# Edits of the source range

`operation.rs`: a slip moves the source range of a clip and leaves its length, a trim moves the boundaries. The
boundaries of the range are mapped to the nearest frames of the project, and the frames between them are what the
clip covers.
-/

namespace Kinewright.Edits

open Fallible Model Timeline

variable {doc after : Document} {id : ClipId} {clip clip' : Clip}

/-! ## Slips -/

/-- The clip starts where it did and is as long as it was, and the others are what they were. -/
structure KeepsSlot (doc after : Document) (id : ClipId) : Prop where
  slot : ∃ clip clip', doc.clip id = some clip ∧ after.clip id = some clip' ∧
    clip'.timelineStart = clip.timelineStart ∧ after.clipDuration clip' = doc.clipDuration clip
  others : otherClips [id] after = otherClips [id] doc

/-- The old and the new source range gain a frame on the grid of the project, or neither does. -/
def SlipsInPhase (doc : Document) (id : ClipId) (newSourceIn : TimeCode) : Prop :=
  ∃ clip media rate, doc.clip id = some clip ∧ doc.asset clip.asset = some media ∧
    clipEffectiveFps media.fps clip = .ok rate ∧
      let length := (clip.sourceRange.stop.toInt - clip.sourceRange.start.toInt).toNat
      (Grid.Gains (rate.scale doc.fps) (doc.fps.scale rate) newSourceIn.toInt.toNat length ↔
        Grid.Gains (rate.scale doc.fps) (doc.fps.scale rate) clip.sourceRange.start.toInt.toNat length)

/-- The length of a mapped range, from its start and its own length. -/
theorem mapSourceRange_length {start stop duration : TimeCode} {rate fps : Rational}
    (h : mapSourceRangeToProject start stop rate fps = .ok duration) {length : ℕ}
    (hlength : stop.toInt = start.toInt + length) :
    duration.toInt = ((length * rate.scale fps / fps.scale rate
      + if Grid.Gains (rate.scale fps) (fps.scale rate) start.toInt.toNat length then 1 else 0 : ℕ) : ℤ) := by
  obtain ⟨hrate, hfps, hstart, hlt, hduration⟩ := mapSourceRange_ok h
  have hstop : stop.toInt.toNat = start.toInt.toNat + length := by omega
  rw [hduration, hstop, Grid.nearest_add (hfps.scale_pos hrate)]
  omega

/-- A slip keeps the slot, exactly if the source range gains no other frame by its new phase. -/
theorem slip_keepsSlot_iff {newSourceIn : TimeCode} (h : (Operation.slipClip id newSourceIn).apply doc = .ok after) :
    KeepsSlot doc after id ↔ SlipsInPhase doc id newSourceIn := by
  obtain ⟨edited, happlied⟩ := applied_of_apply h
  have hkeep : ({ doc, events := [] } : Draft).keep (slipClip · id newSourceIn) = .ok edited := happlied.edits
  have hslip : slipClip doc id newSourceIn = .ok edited.doc := keep_eq hkeep
  obtain ⟨hasset, hfps, found, clip, clip', hfound, hclip, hedit, hedited⟩ := edited_of_editClip happlied hslip
  simp only [bind_eq_ok, okOr_eq_ok, checkedSub_eq_some, checkedAdd_eq_some, Except.ok.injEq] at hedit
  obtain ⟨_, hmedia, span, hspan, newSourceOut, hstop, _, -, _, -, rfl⟩ := hedit
  rw [refuse_eq_ok, Bool.not_eq_false, ClipContent.isMedia, decide_eq_true_eq] at hmedia
  obtain ⟨hedited, hmem⟩ := hedited rfl
  obtain ⟨duration, hduration, -⟩ := (happlied.before.fits.clips found hfound clip hclip).duration
  obtain ⟨media, rate, hfoundMedia, hrate, hmapped⟩ := (clipDuration_media hmedia).mp hduration
  obtain ⟨track, htrack, hmem⟩ := List.mem_flatMap.mp hmem
  obtain ⟨duration', hduration', -⟩ := (happlied.after.fits.clips track htrack _ hmem).duration
  obtain ⟨media', rate', hfoundMedia', hrate', hmapped'⟩ := (clipDuration_media (by exact hmedia)).mp hduration'
  rw [hasset] at hfoundMedia'
  obtain rfl := Option.some.inj (hfoundMedia.symm.trans hfoundMedia')
  obtain rfl := Except.ok.inj (hrate.symm.trans hrate')
  obtain ⟨-, -, hstart, hlt, -⟩ := mapSourceRange_ok hmapped
  let length := (clip.sourceRange.stop.toInt - clip.sourceRange.start.toInt).toNat
  have hold : clip.sourceRange.stop.toInt = clip.sourceRange.start.toInt + length := by omega
  have hnew : newSourceOut.toInt = newSourceIn.toInt + length := by omega
  have hold := mapSourceRange_length hmapped hold
  have hnew := mapSourceRange_length hmapped' hnew
  have hdurations : duration' = duration ↔
      (Grid.Gains (rate.scale doc.fps) (doc.fps.scale rate) newSourceIn.toInt.toNat length ↔
        Grid.Gains (rate.scale doc.fps) (doc.fps.scale rate) clip.sourceRange.start.toInt.toNat length) := by
    rw [← Int64.toInt_inj, hold, hnew, Int.natCast_inj]
    split <;> split <;> simp_all
  constructor
  · rintro ⟨⟨clip', clip'', hclip', hclip'', -, hsame⟩, -⟩
    obtain rfl := Option.some.inj (hedited.original.symm.trans hclip')
    obtain rfl := Option.some.inj (hedited.changed.symm.trans hclip'')
    rw [hduration, hduration', Except.ok.injEq] at hsame
    exact ⟨clip, media, rate, hedited.original, hfoundMedia, hrate, hdurations.mp hsame⟩
  · rintro ⟨clip', media', rate', hclip', hmedia', hrate', hphase⟩
    obtain rfl := Option.some.inj (hedited.original.symm.trans hclip')
    obtain rfl := Option.some.inj (hfoundMedia.symm.trans hmedia')
    obtain rfl := Except.ok.inj (hrate.symm.trans hrate')
    refine ⟨⟨clip, _, hedited.original, hedited.changed, rfl, ?_⟩, hedited.others⟩
    rw [hduration, hduration', hdurations.mpr hphase]

/-- The clip slips by a frame of its source: it covers a second of it, a whole number of frames in every phase. -/
theorem slip_keepsSlot_second : ∃ after, (Operation.slipClip 1 11).apply demoDocument = .ok after ∧
    (KeepsSlot demoDocument after 1 ↔ SlipsInPhase demoDocument 1 11) := by
  obtain ⟨after, hafter⟩ : ∃ after, (Operation.slipClip 1 11).apply demoDocument = .ok after :=
    exists_ok (by decide +kernel)
  exact ⟨after, hafter, slip_keepsSlot_iff hafter⟩

/-- A frame of a source at 24 frames a second, in a project at 30. -/
def onePhase : Document :=
  { demoDocument with
    tracks :=
      [{ id := 1
         kind := .video
         syncLock := false
         clips := [{ demoClip with sourceRange := { start := 0, stop := 1 } }] }]
    duration := 6 }

/-- The first frame of the source covers a frame of the project, the second one two. -/
theorem slip_gains_frame : onePhase.validate = .ok () ∧
    ∃ after, (Operation.slipClip 1 1).apply onePhase = .ok after ∧ ¬ KeepsSlot onePhase after 1 := by
  refine ⟨by decide +kernel, ?_⟩
  have hok : ((Operation.slipClip 1 1).apply onePhase).toOption.any (fun after =>
      (after.clip 1).any fun clip' => decide (after.clipDuration clip' = .ok 2)) = true := by decide +kernel
  cases h : (Operation.slipClip 1 1).apply onePhase with
  | error error =>
    rw [h] at hok
    cases hok
  | ok after =>
    rw [h, Except.toOption, Option.any_some] at hok
    refine ⟨after, rfl, ?_⟩
    rintro ⟨⟨clip, clip', hclip, hclip', -, hsame⟩, -⟩
    rw [hclip', Option.any_some, decide_eq_true_eq, hsame] at hok
    have hbefore : (onePhase.clip 1).bind (fun clip => (onePhase.clipDuration clip).toOption) = some 1 := by
      decide +kernel
    rw [hclip, Option.bind_some, hok] at hbefore
    exact absurd hbefore (by decide)

end Kinewright.Edits
