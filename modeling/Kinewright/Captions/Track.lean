import Kinewright.Captions.Motion
import Kinewright.Edits.Batches
import Kinewright.Edits.Placements

/-!
# Captions on a track of their own

The clips of captions follow each other on the last track of a document. A title that starts behind them is accepted there,
and so are the effects of its motion.
-/

namespace Kinewright.Captions

open Fallible Model Edits List Int64

variable {doc now : Document} {track : TrackId} {id : ℕ} {preset : CaptionPreset} {motion : CaptionMotion}
  {position : Option TitlePosition} {cue : CaptionCue} {operation : Operation}
  {clips clips' : List Clip} {effect : Effect} {effects rest : List Effect}

/-! ## The title of a cue -/

/-- The frames of a cue. -/
def CaptionCue.duration (cue : CaptionCue) : TimeCode := cue.stop - cue.start

/-- A cue with a frame, in the project, and a text that a title accepts. -/
structure CaptionCue.Fits (cue : CaptionCue) : Prop where
  start : 0 ≤ cue.start.toInt
  pos : cue.start < cue.stop
  text : validateTitleParameter "text" (.text cue.text) = .ok ()

theorem CaptionCue.Fits.duration_eq (h : cue.Fits) :
    cue.duration.toInt = cue.stop.toInt - cue.start.toInt ∧ 0 < cue.duration.toInt := by
  have hpos := lt_iff_toInt_lt.mp h.pos
  have hstart := h.start
  have hduration : cue.duration.toInt = cue.stop.toInt - cue.start.toInt := toInt_sub_of_nonneg (by omega) hstart
  omega

/-- A position is given that is the one of the preset, or none is. -/
def KeepsPosition (preset : CaptionPreset) (position : Option TitlePosition) : Prop :=
  ∀ other ∈ position, other = (preset.title "").position

instance : Decidable (KeepsPosition preset position) := inferInstanceAs (Decidable (∀ other ∈ position, _))

/-- A title is accepted exactly if its text is, and its position is the one of the preset. -/
theorem validateTitle_captionTitle {text : String} {duration : TimeCode} (hduration : 0 ≤ duration.toInt) :
    validateTitle id (captionTitle preset position text) duration = .ok () ↔
      validateTitleParameter "text" (.text text) = .ok () ∧ KeepsPosition preset position := by
  have htext : (captionTitle preset position text).text = text := by
    cases position <;> rfl
  have hpreset : (captionTitle preset position text).captionPreset = some preset := by
    cases position <;> rfl
  have hfades : (captionTitle preset position text).fadeInFrames = 0 ∧
      (captionTitle preset position text).fadeOutFrames = 0 := by
    cases position <;> exact ⟨rfl, rfl⟩
  have hmatches : (captionTitle preset position text).matchesPreset preset
      = (captionTitle preset position "").matchesPreset preset := by
    cases position <;> rfl
  have hposition : (captionTitle preset position "").matchesPreset preset = true ↔ KeepsPosition preset position := by
    cases position with
    | none => cases preset <;> decide
    | some other => cases preset <;> cases other <;> decide
  -- the text is the only parameter that is not of the preset
  have hothers : ∀ descriptor ∈ titleParameterDescriptors.tail, validateTitleParameter descriptor.1
      (titleParameterValue (captionTitle preset position text) descriptor.1) = .ok () := by
    simp only [titleParameterDescriptors, tail_cons, forall_mem_cons, not_mem_nil, false_implies,
      implies_true, and_true]
    cases position with
    | none => cases preset <;> exact ⟨rfl, rfl, rfl, rfl, rfl, rfl, rfl⟩
    | some other => cases preset <;> cases other <;> exact ⟨rfl, rfl, rfl, rfl, rfl, rfl, rfl⟩
  have hparameters : (∀ descriptor ∈ titleParameterDescriptors, validateTitleParameter descriptor.1
      (titleParameterValue (captionTitle preset position text) descriptor.1) = .ok ()) ↔
        validateTitleParameter "text" (.text text) = .ok () := by
    have hvalue : titleParameterValue (captionTitle preset position text) "text" = .text text := congrArg _ htext
    rw [titleParameterDescriptors, forall_mem_cons, hvalue]
    exact and_iff_left hothers
  have hshort : ¬ duration < 0 := by
    rw [lt_iff_toInt_lt, toInt_zero]
    omega
  rw [Model.validateTitle, then_eq_ok, then_eq_ok, all_eq_ok, all_eq_ok, all_eq_ok, hparameters, hpreset, hfades.1, hfades.2]
  refine and_congr_right fun _ => ?_
  rw [Option.toList_some, forall_mem_singleton, refuse_eq_ok, Bool.not_eq_false, hmatches, hposition]
  refine and_iff_left fun fade hfade => ?_
  rw [refuse_eq_ok]
  simp only [mem_cons, not_mem_nil, or_false] at hfade
  rcases hfade with rfl | rfl
  · exact hshort
  · exact hshort

/-! ## The clip of a cue -/

/-- Effects of a motion: none of them grades, and no two have the same id. -/
structure MotionFits (effects : List Effect) : Prop where
  distinct : effects.Pairwise fun previous effect => effect.id ≠ previous.id
  plain : ∀ effect ∈ effects, ColorNodeKind.fromEffectName effect.name = none ∧ effect.name ≠ "color_grade"
  fits : ∀ effect ∈ effects, ∀ doc clip adjusts, VisualFits doc clip adjusts effect

/-- The effects of a motion are accepted if the last frame of the caption is in bounds. -/
theorem motionFits_motionEffects {duration : TimeCode} (hle : motion ≠ .none → duration.toInt ≤ maxKeyFrameOffset + 1) :
    MotionFits (motionEffects duration motion) := by
  rw [motionEffects]
  split
  · exact ⟨.nil, forall_mem_nil _, forall_mem_nil _⟩
  · rename_i hmoves
    rw [not_or, le_iff_toInt_le, Int.not_le] at hmoves
    obtain ⟨hmotion, hlong⟩ := hmoves
    have hopacity (doc : Document) (clip : ClipId) (adjusts : Prop) : VisualFits doc clip adjusts (opacityEffect duration) :=
      (visualFits_opacity hlong).mpr (hle hmotion)
    have hgrade : "opacity" ≠ "color_grade" ∧ "transform" ≠ "color_grade" := by decide
    cases hkeys : transformKeys duration motion with
    | none =>
      exact ⟨pairwise_singleton _ _, forall_mem_singleton.mpr ⟨rfl, hgrade.1⟩, forall_mem_singleton.mpr hopacity⟩
    | some found =>
      have hids : (transformEffect found.1 found.2).id ≠ (opacityEffect duration).id :=
        (by decide : (2 : EffectId) ≠ 1)
      have htransform (doc : Document) (clip : ClipId) (adjusts : Prop) :
          VisualFits doc clip adjusts (transformEffect found.1 found.2) := visualFits_transform hlong (hle hmotion) hkeys
      show MotionFits [opacityEffect duration, transformEffect found.1 found.2]
      exact ⟨pairwise_pair.mpr hids, forall_mem_cons.mpr ⟨⟨rfl, hgrade.1⟩, forall_mem_singleton.mpr ⟨rfl, hgrade.2⟩⟩,
        forall_mem_cons.mpr ⟨hopacity, forall_mem_singleton.mpr htransform⟩⟩

/-- The track of the captions. -/
def captionTrack (id : TrackId) (clips : List Clip) : Track := { id, kind := .video, syncLock := true, clips }

/-- The clip of a cue, with effects. -/
def captionClip (preset : CaptionPreset) (position : Option TitlePosition) (id : ClipId) (cue : CaptionCue)
    (effects : List Effect) : Clip :=
  newClip id 0 { start := 0, stop := cue.duration } (.title (captionTitle preset position cue.text)) cue.start effects

theorem captionClip_duration (doc : Document) (cue : CaptionCue) (effects : List Effect) :
    doc.clipDuration (captionClip preset position id cue effects) = .ok cue.duration := by
  refine (clipDuration_span (by rintro ⟨⟩)).mpr ?_
  show cue.duration.toInt = cue.duration.toInt - 0
  omega

/-- The clip of a cue ends where the cue does. -/
theorem captionClip_end (doc : Document) (h : cue.Fits) (effects : List Effect) :
    doc.clipEnd (captionClip preset position id cue effects) = .ok cue.stop := by
  have hduration := h.duration_eq.1
  rw [Document.clipEnd, captionClip_duration, ok_bind, okOr_eq_ok, checkedAdd_eq_some]
  show cue.stop.toInt = cue.start.toInt + cue.duration.toInt
  omega

/-- The clip of a cue carries nothing but the effects of its motion. -/
theorem dataFits_captionClip (doc : Document) (h : cue.Fits) (heffects : MotionFits effects) :
    DataFits doc (captionClip preset position id cue effects) where
  distinct := heffects.distinct
  each effect heffect := heffects.fits effect heffect doc _ _
  managed := by
    have hnone : managedColorNodeCount effects = 0 := countP_eq_zero.mpr fun effect heffect => by
      rw [isManagedColorNode, (heffects.plain effect heffect).1]
      simp
    show ¬ 16 < managedColorNodeCount effects
    omega
  luts := by
    have hnone : lutNodeCount effects = 0 := countP_eq_zero.mpr fun effect heffect => by
      rw [isLutColorNode, (heffects.plain effect heffect).1]
      simp
    show ¬ 4 < lutNodeCount effects
    omega
  stages := by
    have hnone : colorNodes effects = [] := filterMap_eq_nil_iff.mpr fun effect heffect => by
      rw [(heffects.plain effect heffect).1, Option.map_none]
    show checkStageOrder id (colorNodes effects) = .ok ()
    rw [hnone]
    rfl
  transition := by rintro _ ⟨⟩
  audio := by
    have hpos := h.duration_eq.2
    have hsilent : ¬ ((0 : Int32) < -600 ∨ 120 < (0 : Int32)) := by decide
    refine (validateClipAudio_eq_ok (captionClip_duration doc cue effects)).mpr ⟨?_, ?_, hsilent, ?_, ?_, ?_⟩
    · rintro ⟨-, ⟨⟩⟩
    · rintro _ ⟨⟩
    · exact Int.le_refl 0
    · exact Int.le_refl 0
    · show (0 : ℤ) + 0 ≤ cue.duration.toInt
      omega

theorem clipValid_captionClip (doc : Document) (clips : List Clip) (h : cue.Fits) (hkeeps : KeepsPosition preset position)
    (heffects : MotionFits effects) :
    ClipValid doc (captionTrack track clips) (captionClip preset position id cue effects) cue.duration cue.stop where
  start := h.start
  content := by
    have hpos := h.duration_eq.2
    refine (validateContent_title rfl (captionClip_duration doc cue effects)).mpr ⟨rfl, ⟨Int.le_refl 0, hpos⟩, ?_⟩
    exact (validateTitle_captionTitle (by omega)).mpr ⟨h.text, hkeeps⟩
  speed := fun _ => rfl
  duration_eq := captionClip_duration doc cue effects
  pos := h.duration_eq.2
  stop_eq := by
    have hduration := h.duration_eq.1
    show cue.stop.toInt = cue.start.toInt + cue.duration.toInt
    omega
  data := validateClipData_eq_ok.mpr (dataFits_captionClip doc h heffects)
  enabled := rfl

/-! ## Edits of the track -/

/-- The captions are on a track behind those of the document. -/
structure Captioning (doc : Document) (track : TrackId) (clips : List Clip) (now : Document) : Prop where
  valid : now.Valid
  tracks : now.tracks = doc.tracks ++ [captionTrack track clips]

namespace Captioning

section

variable (h : Captioning doc track clips now)

include h

theorem mem_tracks : captionTrack track clips ∈ now.tracks := by
  rw [h.tracks]
  exact mem_append_right _ (mem_singleton_self _)

theorem trackOf : trackOf now track = .ok (captionTrack track clips) :=
  (distinct_of_fits h.valid.fits).trackOf h.mem_tracks

theorem clips_eq : now.clips = doc.clips ++ clips := by
  rw [Document.clips, h.tracks, flatMap_append, flatMap_singleton]
  rfl

/-- Other clips on the track leave the other tracks. -/
theorem tracks_withClips : (withClips now track clips').tracks = doc.tracks ++ [captionTrack track clips'] := by
  have hids := h.valid.fits.trackIds
  rw [h.tracks, map_append, nodup_append] at hids
  have hother : ∀ other ∈ doc.tracks, ¬ other.id = track := fun other hother heq =>
    hids.2.2 other.id (mem_map_of_mem hother) track mem_cons_self heq
  rw [withClips, h.tracks]
  generalize doc.tracks = tracks at hother ⊢
  induction tracks with
  | nil => exact if_pos (decide_eq_true rfl)
  | cons first tracks ih =>
    obtain ⟨hfirst, hother⟩ := forall_mem_cons.mp hother
    have hrest := ih hother
    dsimp only at hrest ⊢
    rw [cons_append, List.modifyFirst, if_neg (by simpa using hfirst), hrest, cons_append]

/-- An edit that leaves valid clips apart on the track of the captions is accepted. -/
theorem edit {edited : Draft} (hdraft : operation.draft now = .ok edited)
    (hedited : edited.doc = withClips now track clips')
    (hclips : ∀ clip ∈ clips', ∃ duration stop, ClipValid now (captionTrack track clips) clip duration stop)
    (hapart : Apart now clips') (hnodup : (clips'.map Clip.id).Nodup)
    (hids : ∀ id ∈ clips'.map Clip.id, id ∈ clips.map Clip.id ∨ id ∉ now.clips.map Clip.id) :
    ∃ next, Performs now [operation] next ∧ Captioning doc track clips' next := by
  have htrack : Edits.trackOf now (captionTrack track clips).id = .ok (captionTrack track clips) := h.trackOf
  have htracks : TracksValid now (withClips now track clips').tracks :=
    tracksValid_withClips h.valid htrack hclips hapart hnodup hids
  obtain ⟨duration, -, happly⟩ := exists_apply h.valid hdraft hedited htracks
    ((ids_withClips now track clips').symm ▸ h.valid.mixFits)
  obtain ⟨_, happlied⟩ := applied_of_apply happly
  exact ⟨_, .single happly, happlied.after, h.tracks_withClips⟩

end

/-- Valid clips that are apart are in the order in which a track keeps them. -/
theorem sorted (hclips : ∀ clip ∈ clips', ∃ duration stop, ClipValid now (captionTrack track clips) clip duration stop)
    (hapart : Apart now clips') : clips'.Pairwise Clip.le := by
  refine Pairwise.imp_of_mem (fun {clip next} hclip hnext hbefore => ?_) hapart
  obtain ⟨duration, stop, hvalid⟩ := hclips clip hclip
  have hle := le_iff_toInt_le.mp (hbefore stop hvalid.clipEnd)
  have hpos := hvalid.pos
  have hstop := hvalid.stop_eq
  exact .inl (lt_iff_toInt_lt.mpr (by omega))

/-- A title behind the captions is accepted, and gets the next id. -/
theorem title (h : Captioning doc track clips now) (hid : now.nextClipId = .ok id) (hcue : cue.Fits)
    (hkeeps : KeepsPosition preset position)
    (hbefore : ∀ clip ∈ clips, ∀ stop, now.clipEnd clip = .ok stop → stop ≤ cue.start) :
    ∃ next, Performs now [.addTitle track cue.start cue.duration (captionTitle preset position cue.text)] next ∧
      Captioning doc track (clips ++ [captionClip preset position id cue []]) next := by
  have hpos := hcue.duration_eq.2
  have hstart := hcue.start
  have hfresh : id ∉ now.clips.map Clip.id := nextClipId_fresh hid
  have hclips : ∀ clip ∈ clips ++ [captionClip preset position id cue []],
      ∃ duration stop, ClipValid now (captionTrack track clips) clip duration stop := by
    refine forall_mem_append.mpr ⟨fun clip hclip => h.valid.clipValid h.mem_tracks hclip, ?_⟩
    have hnone : MotionFits [] := ⟨.nil, forall_mem_nil _, forall_mem_nil _⟩
    exact forall_mem_singleton.mpr ⟨_, _, clipValid_captionClip now clips hcue hkeeps hnone⟩
  have hapart : Apart now (clips ++ [captionClip preset position id cue []]) := by
    refine pairwise_append.mpr ⟨h.valid.fits.apart _ h.mem_tracks, pairwise_singleton _ _, ?_⟩
    intro clip hclip new hnew stop hstop
    obtain rfl := mem_singleton.mp hnew
    exact hbefore clip hclip stop hstop
  have hadded : addTitle now track cue.start cue.duration (captionTitle preset position cue.text)
      = .ok (withClips now track (clips ++ [captionClip preset position id cue []])) := by
    have hsorted := (sorted hclips hapart).insertionSort_eq
    have hinsert : insertClip now track (captionClip preset position id cue [])
        = withClips now track (clips ++ [captionClip preset position id cue []]) :=
      (insertClip_eq h.trackOf).trans (congrArg (withClips now track) hsorted)
    have htitle : validateTitle id (captionTitle preset position cue.text) cue.duration = .ok () :=
      (validateTitle_captionTitle (Int.le_of_lt hpos)).mpr ⟨hcue.text, hkeeps⟩
    have hnonneg : ¬ cue.start < 0 := by
      rw [lt_iff_toInt_lt, toInt_zero]
      omega
    have hlong : ¬ cue.duration ≤ 0 := by
      rw [le_iff_toInt_le, toInt_zero]
      omega
    have hvideo : ¬ (captionTrack track clips).kind ≠ .video := not_not.mpr rfl
    simp only [addTitle, bind_eq_ok, refuse_eq_ok, h.trackOf, hid, Except.ok.injEq]
    exact ⟨(), hnonneg, (), hlong, _, rfl, (), hvideo, _, rfl, (), htitle, hinsert⟩
  have hdraft : (Operation.addTitle track cue.start cue.duration (captionTitle preset position cue.text)).draft now
      = .ok { doc := withClips now track (clips ++ [captionClip preset position id cue []]), events := [.made id] } := by
    rw [Operation.draft, Operation.edit, Draft.make, hadded, hid]
    rfl
  refine h.edit hdraft rfl hclips hapart ?_ ?_
  · rw [map_append, nodup_append]
    refine ⟨h.valid.fits.trackClipIds h.mem_tracks, nodup_singleton _, fun other hother new hnew heq => hfresh ?_⟩
    obtain rfl := mem_singleton.mp hnew
    obtain ⟨clip, hclip, rfl⟩ := mem_map.mp hother
    exact heq ▸ mem_map_of_mem (mem_clips h.mem_tracks hclip)
  · intro other hother
    rw [map_append, mem_append] at hother
    rcases hother with hother | hother
    · exact .inl hother
    · obtain rfl := mem_singleton.mp hother
      exact .inr hfresh

/-- The clips with the effects of the last one changed. -/
theorem map_swapped_concat {clip clip' : Clip} (hnodup : ((clips ++ [clip]).map Clip.id).Nodup) :
    (clips ++ [clip]).map (swapped clip.id clip') = clips ++ [clip'] := by
  rw [map_append, map_singleton, swapped, if_pos rfl]
  have hother : ∀ other ∈ clips, swapped clip.id clip' other = other := by
    intro other hother
    rw [map_append, nodup_append] at hnodup
    exact if_neg fun heq => hnodup.2.2 other.id (mem_map_of_mem hother) clip.id mem_cons_self heq
  rw [map_congr_left hother, map_id']

/-- An effect of the motion is accepted on the last clip. -/
theorem addEffect (h : Captioning doc track (clips ++ [captionClip preset position id cue effects]) now) (hcue : cue.Fits)
    (hkeeps : KeepsPosition preset position) (hfits : MotionFits (effects ++ [effect])) :
    ∃ next, Performs now [.addEffect id effect] next ∧
      Captioning doc track (clips ++ [captionClip preset position id cue (effects ++ [effect])]) next := by
  have hmem : effect ∈ effects ++ [effect] := mem_append_right _ (mem_singleton_self _)
  obtain ⟨hplain, hgrade⟩ := hfits.plain effect hmem
  have hvisual : VisualFits now id False effect := hfits.fits effect hmem now id False
  have hnodup := h.valid.fits.trackClipIds h.mem_tracks
  have hlast : captionClip preset position id cue effects ∈ clips ++ [captionClip preset position id cue effects] :=
    mem_append_right _ (mem_singleton_self _)
  have hfresh : effect.id ∉ effects.map Effect.id := by
    intro hin
    obtain ⟨previous, hprevious, heq⟩ := mem_map.mp hin
    exact (pairwise_append.mp hfits.distinct).2.2 previous hprevious effect mem_cons_self heq.symm
  have hstages : checkStageOrder id (colorNodes (effects ++ [effect])) = .ok () := by
    have hdata : DataFits now (captionClip preset position id cue (effects ++ [effect])) :=
      dataFits_captionClip now hcue hfits
    exact hdata.stages
  have hlimits : checkColorNodeLimits id effects effect.name = .ok () := by
    rw [checkColorNodeLimits, isManagedColorNode, isLutColorNode, hplain]
    rfl
  have hautomation : validateEffectAutomation id cue.duration effect = .ok () :=
    (validateEffectAutomation_eq_ok hvisual.visual).mpr hvisual.automation
  have hvisible : ¬ isAudioEffect effect.name = true := by
    rw [hvisual.visual]
    exact Bool.false_ne_true
  have hinserted : insertEffect now id none effect
      = .ok (withClips now track (clips ++ [captionClip preset position id cue (effects ++ [effect])])) := by
    rw [insertEffect, hvisual.valid, ok_bind, then_eq_ok, hvisual.points, ok_bind]
    refine ⟨refuse_eq_ok.mpr hvisible, (editClip_of (distinct_of_fits h.valid.fits) h.mem_tracks hlast (show _ = Except.ok
      (captionClip preset position id cue (effects ++ [effect])) from ?_)).trans ?_⟩
    · rw [captionClip_duration, ok_bind]
      simp only [bind_eq_ok, refuse_eq_ok]
      refine ⟨(), hautomation, (), hvisual.luts, (), hfresh, (), Nat.lt_irrefl _, (), hlimits, ?_⟩
      have hconcat : effects.insertIdx effects.length effect = effects ++ [effect] := insertIdx_length_self
      show ∃ _, checkStageOrder id (colorNodes (effects.insertIdx effects.length effect)) = .ok _ ∧
        Except.ok (captionClip preset position id cue (effects.insertIdx effects.length effect)) = _
      rw [hconcat]
      exact ⟨(), hstages, rfl⟩
    · exact congrArg (fun clips => Except.ok (withClips now track clips)) (map_swapped_concat hnodup)
  have hdraft : (Operation.addEffect id effect).draft now = .ok
      { doc := withClips now track (clips ++ [captionClip preset position id cue (effects ++ [effect])]), events := [] } := by
    have hadded : Edits.addEffect now id effect = insertEffect now id none effect := by
      rw [Edits.addEffect, canonicalizeLegacyName, if_neg hgrade]
    rw [Operation.draft, Operation.edit]
    exact keep_of_ok (hadded.trans hinserted)
  have hids : (clips ++ [captionClip preset position id cue (effects ++ [effect])]).map Clip.id
      = (clips ++ [captionClip preset position id cue effects]).map Clip.id := by
    rw [map_append, map_append]
    rfl
  refine h.edit hdraft rfl ?_ ?_ (hids ▸ hnodup) fun other hother => .inl (hids ▸ hother)
  · obtain ⟨hclips, -⟩ := forall_mem_append.mp fun clip hclip => h.valid.clipValid h.mem_tracks hclip
    refine forall_mem_append.mpr ⟨hclips, forall_mem_singleton.mpr ⟨cue.duration, cue.stop, ?_⟩⟩
    exact clipValid_captionClip now _ hcue hkeeps hfits
  · have hapart := h.valid.fits.apart _ h.mem_tracks
    obtain ⟨hclips, -, hbefore⟩ := pairwise_append.mp hapart
    refine pairwise_append.mpr ⟨hclips, pairwise_singleton _ _, fun clip hclip new hnew stop hstop => ?_⟩
    obtain rfl := mem_singleton.mp hnew
    exact hbefore clip hclip _ mem_cons_self stop hstop

/-- The effects of the motion are accepted on the last clip, one after the other. -/
theorem addEffects (h : Captioning doc track (clips ++ [captionClip preset position id cue effects]) now) (hcue : cue.Fits)
    (hkeeps : KeepsPosition preset position) (hfits : MotionFits (effects ++ rest)) :
    ∃ next, Performs now (rest.map (.addEffect id)) next ∧
      Captioning doc track (clips ++ [captionClip preset position id cue (effects ++ rest)]) next := by
  induction rest generalizing effects now with
  | nil =>
    rw [append_nil]
    exact ⟨now, .nil now, h⟩
  | cons effect rest ih =>
    rw [append_cons effects effect rest] at hfits ⊢
    have hfirst : MotionFits (effects ++ [effect]) :=
      ⟨(pairwise_append.mp hfits.distinct).1, fun other hother => hfits.plain other (mem_append_left _ hother),
        fun other hother => hfits.fits other (mem_append_left _ hother)⟩
    obtain ⟨middle, hperforms, hmiddle⟩ := h.addEffect hcue hkeeps hfirst
    obtain ⟨next, hrest, hnext⟩ := ih hmiddle hfits
    exact ⟨next, hperforms.append hrest, hnext⟩

end Captioning

/-- A track for captions is accepted behind those of a document, if its id is a new one. -/
theorem captioning_addTrack (hvalid : doc.Valid) (hfresh : track ∉ doc.tracks.map Track.id) :
    ∃ next, Performs doc [.addTrack (captionTrack track [])] next ∧ Captioning doc track [] next := by
  have htracks : TracksValid doc (doc.tracks ++ [captionTrack track []]) := by
    have hclips : (doc.tracks ++ [captionTrack track []]).flatMap Track.clips = doc.clips := by
      rw [flatMap_append]
      exact append_nil _
    refine ⟨forall_mem_append.mpr ⟨hvalid.tracksValid.clips, ?_⟩, forall_mem_append.mpr
      ⟨hvalid.fits.apart, ?_⟩, ?_, hclips ▸ hvalid.fits.clipIds⟩
    · exact forall_mem_singleton.mpr (forall_mem_nil _)
    · exact forall_mem_singleton.mpr .nil
    · rw [map_append, nodup_append]
      refine ⟨hvalid.fits.trackIds, nodup_singleton _, fun other hother new hnew heq => hfresh ?_⟩
      obtain rfl := mem_singleton.mp hnew
      exact heq ▸ hother
  have hmix : MixFits doc.audioMix ((doc.tracks ++ [captionTrack track []]).map Track.id) doc.duration := by
    refine hvalid.mixFits.more ?_
    rw [map_append]
    exact subset_append_left _ _
  have hadded : addTrack doc (captionTrack track []) = .ok { doc with tracks := doc.tracks ++ [captionTrack track []] } := by
    simp only [addTrack, bind_eq_ok, refuse_eq_ok]
    exact ⟨(), hfresh, (), fun hne => hne rfl, trivial⟩
  have hdraft : (Operation.addTrack (captionTrack track [])).draft doc
      = .ok { doc := { doc with tracks := doc.tracks ++ [captionTrack track []] }, events := [] } := by
    rw [Operation.draft, Operation.edit]
    exact keep_of_ok hadded
  obtain ⟨duration, -, happly⟩ := exists_apply hvalid hdraft rfl htracks hmix
  obtain ⟨_, happlied⟩ := applied_of_apply happly
  exact ⟨_, .single happly, happlied.after, rfl⟩

end Kinewright.Captions
