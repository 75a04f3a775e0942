import Kinewright.Edits.Placements

/-!
# Replacements

`operation.rs`: other media takes the place of the media of a clip. The clip stays where it is and as long as it is: the
new range lasts as long at its own speed, or at the speed that fills the slot.
-/

namespace Kinewright.Edits

open Fallible Model List Document

variable {doc after next : Document} {found : Track} {id : ClipId} {clip clip' : Clip} {asset : AssetId} {media : MediaAsset}
  {source : FrameRange} {fps : Rational} {required realTime duration stop : TimeCode} {speed ideal : ℕ}
  {speedPercent : UInt32} {fitToFill : Bool}

/-! ## Speeds -/

/-- At the speed the range lasts the duration. -/
def Fills (media : MediaAsset) (source : FrameRange) (fps : Rational) (required : TimeCode) (speedPercent : UInt32) : Prop :=
  ∃ effective, speedScaledFps media.fps speedPercent = .ok effective ∧
    mapSourceRangeToProject source.start source.stop effective fps = .ok required

/-- The speeds a clip may have. -/
def AllowedSpeed (speedPercent : UInt32) : Prop := 10 ≤ speedPercent.toNat ∧ speedPercent.toNat ≤ 1000

theorem fills_eq_true : fills media source fps required speed = true ↔
    Fills media source fps required (UInt32.ofNat speed) := by
  rw [fills, Fills]
  cases heffective : speedScaledFps media.fps (UInt32.ofNat speed) with
  | error error =>
    constructor
    · intro h
      cases h
    · rintro ⟨effective, h, -⟩
      cases h
  | ok effective =>
    simp only [Except.ok.injEq, exists_eq_left', decide_eq_true_eq]
    cases mapSourceRangeToProject source.start source.stop effective fps with
    | error error | ok mapped => simp [Except.toOption]

/-- An allowed speed is one of those that are tried. -/
theorem mem_speeds (hspeed : AllowedSpeed speedPercent) (hfills : Fills media source fps required speedPercent) :
    speedPercent.toNat ∈ (List.range' 10 991).filter (fills media source fps required) := by
  refine mem_filter.mpr ⟨mem_range'_1.mpr ⟨hspeed.1, ?_⟩, fills_eq_true.mpr ?_⟩
  · have := hspeed.2
    omega
  · rwa [UInt32.ofNat_toNat]

theorem toNat_of_mem_speeds (h : speed ∈ (List.range' 10 991).filter (fills media source fps required)) :
    (UInt32.ofNat speed).toNat = speed ∧ AllowedSpeed (UInt32.ofNat speed) ∧
      Fills media source fps required (UInt32.ofNat speed) := by
  obtain ⟨hrange, hfills⟩ := mem_filter.mp h
  have hbounds := mem_range'_1.mp hrange
  have hsame : (UInt32.ofNat speed).toNat = speed := UInt32.toNat_ofNat_of_lt' (lt_trans hbounds.2 (by decide))
  refine ⟨hsame, ⟨?_, ?_⟩, fills_eq_true.mp hfills⟩
  · omega
  · omega

/-- The speed is exact, and none of the exact speeds is nearer to the ideal one. -/
structure Nearest (media : MediaAsset) (source : FrameRange) (fps : Rational) (required : TimeCode) (ideal : ℕ)
    (speedPercent : UInt32) : Prop where
  allowed : AllowedSpeed speedPercent
  exact : Fills media source fps required speedPercent
  least : ∀ other, AllowedSpeed other → Fills media source fps required other →
    absDiff speedPercent.toNat ideal ≤ absDiff other.toNat ideal

theorem fitSpeed_eq_ok (h : fitSpeed doc id media source realTime required = .ok speedPercent) :
    ∃ ideal, idealSpeed realTime required = some ideal ∧ Nearest media source doc.fps required ideal speedPercent := by
  simp only [fitSpeed, bind_eq_ok, okOr_eq_ok, Except.ok.injEq] at h
  obtain ⟨ideal, hideal, speed, hspeed, rfl⟩ := h
  obtain ⟨hsame, hallowed, hexact⟩ := toNat_of_mem_speeds (argmin_mem hspeed)
  refine ⟨ideal, hideal, hallowed, hexact, fun other hother hfills => ?_⟩
  rw [hsame]
  exact le_of_mem_argmin (mem_speeds hother hfills) hspeed

variable {other : ClipId}

/-- The search for a speed fails only if there is none. -/
theorem fitSpeed_unrepresentable
    (h : fitSpeed doc id media source realTime required = .error (.fitToFillUnrepresentable other)) :
    other = id ∧ ∀ speedPercent, AllowedSpeed speedPercent → ¬ Fills media source doc.fps required speedPercent := by
  rw [fitSpeed] at h
  cases hideal : idealSpeed realTime required with
  | none =>
    rw [hideal] at h
    cases h
  | some ideal =>
    rw [hideal, okOr_some, ok_bind] at h
    dsimp only at h
    cases hspeed : ((List.range' 10 991).filter (fills media source doc.fps required)).argmin (absDiff · ideal) with
    | none =>
      rw [hspeed] at h
      cases h
      refine ⟨rfl, fun speedPercent hallowed hfills => ?_⟩
      have hmem := mem_speeds hallowed hfills
      rw [argmin_eq_none.mp hspeed] at hmem
      cases hmem
    | some speed =>
      rw [hspeed] at h
      cases h

theorem replacementSpeed_eq_ok (h : replacementSpeed doc id media source required fitToFill = .ok speedPercent) :
    AllowedSpeed speedPercent ∧ Fills media source doc.fps required speedPercent := by
  rw [replacementSpeed, bind_eq_ok] at h
  obtain ⟨actual, hactual, h⟩ := h
  cases fitToFill with
  | true =>
    obtain ⟨ideal, -, hnearest⟩ := fitSpeed_eq_ok h
    exact ⟨hnearest.allowed, hnearest.exact⟩
  | false =>
    by_cases hsame : actual = required
    · simp only [Bool.false_eq_true, if_false, if_pos hsame] at h
      obtain rfl := Except.ok.inj h
      exact ⟨⟨by decide, by decide⟩, media.fps, rfl, hsame ▸ mapError_eq_ok.mp hactual⟩
    · simp only [Bool.false_eq_true, if_false, if_neg hsame] at h
      cases h

/-! ## The clip with the other media -/

/-- The clip with the media in its place. -/
def withMedia (clip : Clip) (asset : AssetId) (source : FrameRange) (speedPercent : UInt32) : Clip :=
  { clip with asset, sourceRange := source, content := .media, speedPercent }

/-- What `replace_clip` computes. -/
structure ReplaceOf (doc : Document) (found : Track) (clip : Clip) (asset : AssetId) (source : FrameRange)
    (fitToFill : Bool) (media : MediaAsset) (required : TimeCode) (speedPercent : UInt32) : Prop where
  content : clip.content = .media
  lasts : doc.clipDuration clip = .ok required
  pooled : doc.asset asset = some media
  ranged : validateSourceRange media source = .ok ()
  compatible : validateTrackCompatibility media found = .ok ()
  speed : replacementSpeed doc clip.id media source required fitToFill = .ok speedPercent

theorem isMedia_iff {content : ClipContent} : content.isMedia = false ↔ content ≠ .media := by
  rw [ClipContent.isMedia, decide_eq_false_iff_not]

theorem replaceClip_ok (hdistinct : Distinct doc) (h : replaceClip doc id asset source fitToFill = .ok next) :
    ∃ found clip media required speedPercent, trackOf doc found.id = .ok found ∧ clip ∈ found.clips ∧ clip.id = id ∧
      ReplaceOf doc found clip asset source fitToFill media required speedPercent ∧
      next = withClips doc found.id (found.clips.map (swapped id (withMedia clip asset source speedPercent))) := by
  obtain ⟨found, clip, clip', htrack, hclip, rfl, hedit, hnext⟩ := editClip_eq hdistinct h
  simp only [bind_eq_ok, okOr_eq_ok, refuse_eq_ok, isMedia_iff, not_not, Except.ok.injEq] at hedit
  obtain ⟨⟨⟩, hmedia, required, hrequired, media, hasset, ⟨⟩, hrange, ⟨⟩, hcompatible, speedPercent, hspeed, rfl⟩ := hedit
  exact ⟨found, clip, media, required, speedPercent, htrack, hclip, rfl,
    ⟨hmedia, hrequired, hasset, hrange, hcompatible, hspeed⟩, hnext⟩

section

variable (h : ReplaceOf doc found clip asset source fitToFill media required speedPercent)

include h

/-- The clip lasts as long with the other media. -/
theorem ReplaceOf.clipDuration : doc.clipDuration (withMedia clip asset source speedPercent) = .ok required := by
  obtain ⟨-, effective, heffective, hmapped⟩ := replacementSpeed_eq_ok h.speed
  exact (clipDuration_media rfl).mpr ⟨media, effective, h.pooled, heffective, hmapped⟩

/-- The data of the clip is not checked against its media. -/
theorem ReplaceOf.data :
    validateClipData doc (withMedia clip asset source speedPercent) required = validateClipData doc clip required := by
  have hsame : (withMedia clip asset source speedPercent).content = clip.content := h.content.symm
  have hlasts : doc.clipDuration (withMedia clip asset source speedPercent) = doc.clipDuration clip :=
    h.clipDuration.trans h.lasts.symm
  have heffect : validateClipEffect doc (withMedia clip asset source speedPercent) required
      = validateClipEffect doc clip required := by
    funext before effect
    rw [validateClipEffect, hsame]
    rfl
  have htransition : validateTransition doc (withMedia clip asset source speedPercent) = validateTransition doc clip := by
    funext transition
    rw [validateTransition, hlasts, hsame]
    rfl
  have haudio : validateClipAudio doc (withMedia clip asset source speedPercent) = validateClipAudio doc clip := by
    rw [validateClipAudio, hlasts, hsame]
    rfl
  rw [validateClipData, heffect, htransition, haudio]
  rfl

theorem ReplaceOf.clipValid (hvalid : ClipValid doc found clip duration stop) :
    ClipValid doc found (withMedia clip asset source speedPercent) duration stop := by
  obtain rfl := Except.ok.inj (h.lasts.symm.trans hvalid.duration_eq)
  obtain ⟨hallowed, -⟩ := replacementSpeed_eq_ok h.speed
  refine ⟨hvalid.start, ?_, ?_, h.clipDuration, hvalid.pos, hvalid.stop_eq, h.data.trans hvalid.data, hvalid.enabled⟩
  · refine (validateContent_media rfl).mpr ⟨media, h.pooled, h.compatible, validateSourceRange_eq_ok.mp h.ranged, ?_⟩
    exact if_pos hallowed
  · intro hspan
    cases hspan

end

/-! ## Accepted replacements -/

variable {operation : Operation}

/-- The clip stays where it is and as long as it is, and the other clips are what they were. -/
structure SameSlot (doc after : Document) (id : ClipId) (clip clip' : Clip) (duration : TimeCode) : Prop where
  edited : Edited doc after id clip clip'
  start : clip'.timelineStart = clip.timelineStart
  lasted : doc.clipDuration clip = .ok duration
  lasts : after.clipDuration clip' = .ok duration

/-- A replacement that can be computed is accepted: what is checked of a valid document holds with the other media. -/
theorem exists_apply_replaceClip
    (hedits : ∀ draft : Draft, operation.edit draft = draft.keep (replaceClip · id asset source fitToFill))
    (hvalid : doc.Valid) (h : replaceClip doc id asset source fitToFill = .ok next) :
    ∃ after, operation.apply doc = .ok after := by
  obtain ⟨found, clip, media, required, speedPercent, htrack, hclip, rfl, hreplace, rfl⟩ :=
    replaceClip_ok (distinct_of_fits hvalid.fits) h
  have hmem := mem_of_trackOf htrack
  have hnew : (withMedia clip asset source speedPercent).id = clip.id := rfl
  have hclips : ∀ other ∈ found.clips.map (swapped clip.id (withMedia clip asset source speedPercent)),
      ∃ duration stop, ClipValid doc found other duration stop := by
    intro other hother
    obtain ⟨original, horiginal, rfl⟩ := mem_map.mp hother
    rw [swapped]
    split
    · obtain ⟨duration, stop, hfits⟩ := hvalid.clipValid hmem hclip
      exact ⟨duration, stop, hreplace.clipValid hfits⟩
    · exact hvalid.clipValid hmem horiginal
  have hapart : Apart doc (found.clips.map (swapped clip.id (withMedia clip asset source speedPercent))) := by
    refine apart_swapped (hvalid.fits.apart found hmem) fun other hother heq => ?_
    obtain rfl := hvalid.fits.eq_of_id (mem_clips hmem hother) (mem_clips hmem hclip) heq
    refine ⟨rfl, ?_⟩
    rw [clipEnd, clipEnd, hreplace.clipDuration, hreplace.lasts]
    rfl
  obtain ⟨after, hafter, -⟩ :=
    exists_apply_withClips _ hedits hvalid htrack h hclips hapart (ids_swapped hnew found.clips)
  exact ⟨after, hafter⟩

/-- What an accepted replacement has computed. -/
theorem exists_replaced
    (hedits : ∀ draft : Draft, operation.edit draft = draft.keep (replaceClip · id asset source fitToFill))
    (h : operation.apply doc = .ok after) :
    ∃ found clip media required speedPercent, ReplaceOf doc found clip asset source fitToFill media required speedPercent ∧
      SameSlot doc after id clip (withMedia clip asset source speedPercent) required := by
  obtain ⟨edited, happlied⟩ := applied_of_apply h
  have hdistinct := distinct_of_fits happlied.before.fits
  have hkeep := happlied.edits
  rw [Operation.draft, hedits] at hkeep
  obtain ⟨found, clip, media, required, speedPercent, htrack, hclip, rfl, hreplace, hnext⟩ :=
    replaceClip_ok hdistinct (keep_eq hkeep)
  have hleft := happlied.left htrack hnext
  have hnew : (withMedia clip asset source speedPercent).id = clip.id := rfl
  refine ⟨found, clip, media, required, speedPercent, hreplace, ⟨?_, ?_, ?_⟩, rfl, hreplace.lasts, ?_⟩
  · exact happlied.before.fits.clip_eq_some (mem_clips (mem_of_trackOf htrack) hclip)
  · exact hleft.clip_eq htrack happlied.after (mem_map.mpr ⟨clip, hclip, if_pos rfl⟩)
  · exact hleft.others htrack (filter_swapped hnew (mem_singleton_self _) found.clips)
  · rw [hleft.footage.clipDuration, hreplace.clipDuration]

/-- The ideal speed is the rounded one at which the range lasts as long as the slot. -/
theorem idealSpeed_eq (hreal : 0 ≤ realTime.toInt) (hrequired : 0 < required.toInt)
    (h : idealSpeed realTime required = some ideal) :
    ideal = Grid.nearest 100 required.toInt.toNat realTime.toInt.toNat := by
  have hne : required ≠ 0 := by
    rintro rfl
    exact absurd hrequired (by decide)
  simp only [idealSpeed, if_neg hne, Option.bind_eq_bind, Option.bind_eq_some_iff, tryFrom_eq_some,
    Option.ite_none_right_eq_some, Option.some.injEq] at h
  obtain ⟨scaled, hscaled, biased, hbiased, quotient, hquotient, -, rfl⟩ := h
  obtain ⟨real, hreal⟩ := Int.eq_ofNat_of_zero_le hreal
  obtain ⟨slot, hslot⟩ := Int.eq_ofNat_of_zero_le hrequired.le
  rw [hquotient, hbiased, hscaled, hreal, hslot]
  norm_cast

/-! ## Refused replacements -/

theorem validateSourceRange_ne_unrepresentable :
    validateSourceRange media source ≠ .error (.fitToFillUnrepresentable other) := by
  rw [validateSourceRange]
  split
  · simp
  · split
    · simp
    · simp

theorem validateTrackCompatibility_ne_unrepresentable :
    validateTrackCompatibility media found ≠ .error (.fitToFillUnrepresentable other) := by
  rw [validateTrackCompatibility]
  split
  · simp
  · simp

/-- No speed fills the slot of the clip. -/
def Unrepresentable (doc : Document) (id : ClipId) (asset : AssetId) (source : FrameRange) : Prop :=
  ∃ clip media required, doc.clip id = some clip ∧ doc.asset asset = some media ∧ doc.clipDuration clip = .ok required ∧
    ∀ speedPercent, AllowedSpeed speedPercent → ¬ Fills media source doc.fps required speedPercent

/-- Of what is computed for a replacement, only the search for a speed fails with that error. -/
theorem replaceClip_unrepresentable (hvalid : doc.Valid)
    (h : replaceClip doc id asset source true = .error (.fitToFillUnrepresentable other)) :
    other = id ∧ Unrepresentable doc id asset source := by
  rw [replaceClip, editClip, bind_eq_error] at h
  rcases h with hplace | ⟨place, hplace, h⟩
  · simp [placeOf, bind_eq_error, okOr_eq_error] at hplace
  · obtain ⟨hmem, hclip, rfl⟩ := mem_of_placeOf hplace
    obtain ⟨required, stop, hfits⟩ := hvalid.clipValid hmem hclip
    simp only [bind_eq_error, refuse_eq_error, okOr_eq_error, okOr_eq_ok, hfits.duration_eq, replacementSpeed,
      mapError_eq_error, validateSourceRange_ne_unrepresentable, validateTrackCompatibility_ne_unrepresentable, reduceCtorEq,
      and_false, false_or, or_false, exists_false, Except.ok.injEq, exists_eq_left', if_true] at h
    obtain ⟨-, -, media, hmedia, -, -, -, -, realTime, -, hspeed⟩ := h
    obtain ⟨hother, hnone⟩ := fitSpeed_unrepresentable hspeed
    exact ⟨hother, place.clip, media, required, hvalid.fits.clip_eq_some (mem_clips hmem hclip), hmedia, hfits.duration_eq,
      hnone⟩

/-- A search for a speed that is refused has found none. -/
theorem unrepresentable_of_apply (hvalid : doc.Valid)
    (h : (Operation.fitToFill id asset source).apply doc = .error (.fitToFillUnrepresentable other)) :
    other = id ∧ Unrepresentable doc id asset source := by
  have hedits (draft : Draft) : (Operation.fitToFill id asset source).edit draft
      = draft.keep (replaceClip · id asset source true) := rfl
  cases hreplace : replaceClip doc id asset source true with
  | ok next =>
    obtain ⟨after, hafter⟩ := exists_apply_replaceClip hedits hvalid hreplace
    rw [hafter] at h
    cases h
  | error error =>
    have hdraft : (Operation.fitToFill id asset source).draft doc = .error error := by
      rw [Operation.draft, hedits, Draft.keep, hreplace]
      rfl
    rw [Operation.apply, valid_iff.mp hvalid, Operation.step, hdraft] at h
    obtain rfl := Except.error.inj h
    exact replaceClip_unrepresentable hvalid hreplace

/-! ## Replacements keep the slot -/

/-- The operation that replaces the media of a clip, with a speed that fills the slot or at the speed of the media. -/
def replacement (id : ClipId) (asset : AssetId) (source : FrameRange) : Bool → Operation
  | true => .fitToFill id asset source
  | false => .replaceClip id asset source

theorem edit_replacement (draft : Draft) :
    (replacement id asset source fitToFill).edit draft = draft.keep (replaceClip · id asset source fitToFill) := by
  cases fitToFill with
  | true => rfl
  | false => rfl

/-- What `FitToFill` makes of a slot: the speed is exact, and none of the exact ones is nearer to the ideal speed. -/
structure Filled (doc after : Document) (id : ClipId) (asset : AssetId) (source : FrameRange) (clip clip' : Clip)
    (media : MediaAsset) (required realTime : TimeCode) : Prop where
  slot : SameSlot doc after id clip clip' required
  pooled : doc.asset asset = some media
  real : mapSourceRangeToProject source.start source.stop media.fps doc.fps = .ok realTime
  nearest : Nearest media source doc.fps required (Grid.nearest 100 required.toInt.toNat realTime.toInt.toNat)
    clip'.speedPercent

theorem exists_filled (hvalid : doc.Valid) (h : (Operation.fitToFill id asset source).apply doc = .ok after) :
    ∃ clip clip' media required realTime, Filled doc after id asset source clip clip' media required realTime := by
  have hedits (draft : Draft) : (Operation.fitToFill id asset source).edit draft
      = draft.keep (replaceClip · id asset source true) := rfl
  obtain ⟨found, clip, media, required, speedPercent, hreplace, hslot⟩ := exists_replaced hedits h
  have hspeed := hreplace.speed
  simp only [replacementSpeed, bind_eq_ok, mapError_eq_ok, if_true] at hspeed
  obtain ⟨realTime, hreal, hspeed⟩ := hspeed
  obtain ⟨ideal, hideal, hnearest⟩ := fitSpeed_eq_ok hspeed
  have hpos : 0 < required.toInt := by
    obtain ⟨track, htrack, hclip⟩ := mem_flatMap.mp (mem_of_find?_eq_some hslot.edited.original)
    obtain ⟨duration, stop, hfits⟩ := hvalid.clipValid htrack hclip
    obtain rfl := Except.ok.inj (hslot.lasted.symm.trans hfits.duration_eq)
    exact hfits.pos
  have hnonneg : 0 ≤ realTime.toInt := by
    obtain ⟨hrange, first, last, hfirst, hlast, hlength⟩ := mapSourceRange_eq_ok.mp hreal
    have hmono := mapFrames_mono hfirst hlast hrange.2.le
    omega
  rw [idealSpeed_eq hnonneg hpos hideal] at hnearest
  exact ⟨clip, withMedia clip asset source speedPercent, media, required, realTime, hslot, hreplace.pooled, hreal, hnearest⟩

/-- A replacement keeps the slot of the clip exactly. A search for a speed is refused only if no speed is exact, and finds
one of the exact speeds that are nearest to the ideal one. -/
theorem replacement_keeps_slot (hvalid : doc.Valid) (id : ClipId) (asset : AssetId) (source : FrameRange) :
    (∀ fitToFill after, (replacement id asset source fitToFill).apply doc = .ok after →
      ∃ clip clip' required, SameSlot doc after id clip clip' required) ∧
    (∀ other, (Operation.fitToFill id asset source).apply doc = .error (.fitToFillUnrepresentable other) →
      other = id ∧ Unrepresentable doc id asset source) ∧
    ∀ after, (Operation.fitToFill id asset source).apply doc = .ok after →
      ∃ clip clip' media required realTime, Filled doc after id asset source clip clip' media required realTime := by
  refine ⟨fun fitToFill after h => ?_, fun other h => unrepresentable_of_apply hvalid h,
    fun after h => exists_filled hvalid h⟩
  obtain ⟨found, clip, media, required, speedPercent, -, hslot⟩ := exists_replaced edit_replacement h
  exact ⟨clip, withMedia clip asset source speedPercent, required, hslot⟩

theorem replacement_keeps_slot_oneFrame : ∃ after clip clip' media required realTime,
    (Operation.fitToFill 1 1 ⟨20, 21⟩).apply oneFrame = .ok after ∧
      Filled oneFrame after 1 1 ⟨20, 21⟩ clip clip' media required realTime := by
  have hvalid : oneFrame.Valid := valid_iff.mpr (by decide +kernel)
  obtain ⟨after, hafter⟩ : ∃ after, (Operation.fitToFill 1 1 ⟨20, 21⟩).apply oneFrame = .ok after :=
    exists_ok (by decide +kernel)
  obtain ⟨clip, clip', media, required, realTime, hfilled⟩ :=
    (replacement_keeps_slot hvalid 1 1 ⟨20, 21⟩).2.2 after hafter
  exact ⟨after, clip, clip', media, required, realTime, hafter, hfilled⟩

end Kinewright.Edits
