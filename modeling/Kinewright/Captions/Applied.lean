import Kinewright.Captions.Track

/-!
# Caption plans that apply

A caption plan names the clips of its titles before they are there. Each title takes the next clip id, for the ids before
it are those of the document and of the titles before it. So the effects of a motion are added to the title of their cue,
and the plan is accepted unless a curve gets too long or the preset does not allow the position.
-/

namespace Kinewright.Captions

open Fallible Model Edits List

variable {doc now after : Document} {track : TrackId} {id firstClipId : ℕ} {preset : CaptionPreset} {motion : CaptionMotion}
  {position : Option TitlePosition} {cue : CaptionCue} {cues : List CaptionCue} {frames stop : TimeCode}
  {operations : List Operation} {clip : Clip} {clips : List Clip}

/-! ## The plan -/

/-- The operations of a cue, if its title gets the id. -/
def plannedCue (track : TrackId) (preset : CaptionPreset) (motion : CaptionMotion) (position : Option TitlePosition)
    (id : ClipId) (cue : CaptionCue) : List Operation :=
  .addTitle track cue.start cue.duration (captionTitle preset position cue.text) ::
    captionMotionEffects id cue.duration motion

/-- The operations of cues, if their titles get ids from the given one on. -/
def plannedCues (track : TrackId) (preset : CaptionPreset) (motion : CaptionMotion) (position : Option TitlePosition)
    (id : ClipId) : List CaptionCue → List Operation
  | [] => []
  | cue :: cues => plannedCue track preset motion position id cue ++ plannedCues track preset motion position (id + 1) cues

/-- The last track id and the last clip id of a document, or 0. -/
def lastTrackId (doc : Document) : ℕ := (doc.tracks.map Track.id).max?.getD 0

def lastClipId (clips : List Clip) : ℕ := (clips.map Clip.id).max?.getD 0

/-- There is an id for a track more, and one for a clip of each cue. -/
structure FreeIds (doc : Document) (cues : List CaptionCue) : Prop where
  track : lastTrackId doc + 1 < 2 ^ 64
  clips : lastClipId doc.clips + cues.length < 2 ^ 64

theorem cueDuration_eq_some (hstart : 0 ≤ cue.start.toInt) :
    cueDuration cue = some frames ↔ cue.start < cue.stop ∧ frames = cue.duration := by
  rw [cueDuration, Option.filter_eq_some_iff, checkedSub_eq_some, decide_eq_true_eq, Int64.lt_iff_toInt_lt,
    Int64.lt_iff_toInt_lt, Int64.toInt_zero]
  constructor
  · rintro ⟨hduration, hpos⟩
    exact ⟨by omega, (sub_eq_of_toInt hduration).symm⟩
  · rintro ⟨hlt, rfl⟩
    have hduration : cue.duration.toInt = cue.stop.toInt - cue.start.toInt := toInt_sub_of_nonneg (by omega) hstart
    exact ⟨hduration, by omega⟩

/-- The loop is through exactly if every cue has a frame. -/
theorem cueOperations_eq_ok {index : ℕ} (hstarts : ∀ cue ∈ cues, 0 ≤ cue.start.toInt)
    (hfree : firstClipId + index + cues.length ≤ 2 ^ 64) :
    cueOperations track firstClipId preset motion position index cues = .ok operations ↔
      (∀ cue ∈ cues, cue.start < cue.stop) ∧
        operations = plannedCues track preset motion position (firstClipId + index) cues := by
  induction cues generalizing index operations with
  | nil =>
    rw [cueOperations, plannedCues, Except.ok.injEq, eq_comm, and_iff_right (forall_mem_nil _)]
  | cons cue cues ih =>
    obtain ⟨hstart, hstarts⟩ := forall_mem_cons.mp hstarts
    rw [length_cons] at hfree
    have hid : checkedAddId firstClipId index = some (firstClipId + index) := if_pos (by omega)
    simp only [cueOperations, bind_eq_ok, okOr_eq_ok, cueDuration_eq_some hstart, hid, Option.some.injEq, Except.ok.injEq,
      ih hstarts (by omega : firstClipId + (index + 1) + cues.length ≤ 2 ^ 64), forall_mem_cons]
    constructor
    · rintro ⟨duration, ⟨hpos, rfl⟩, _, rfl, rest, ⟨hrest, rfl⟩, rfl⟩
      exact ⟨⟨hpos, hrest⟩, rfl⟩
    · rintro ⟨⟨hpos, hrest⟩, rfl⟩
      exact ⟨cue.duration, ⟨hpos, rfl⟩, firstClipId + index, rfl, _, ⟨hrest, rfl⟩, rfl⟩

/-- A plan is made exactly if there is a cue, and every cue has a frame. -/
theorem animatedCaptionOperationsAt_eq_ok (hstarts : ∀ cue ∈ cues, 0 ≤ cue.start.toInt) (hfree : FreeIds doc cues) :
    animatedCaptionOperationsAt doc cues preset motion position = .ok operations ↔
      cues ≠ [] ∧ (∀ cue ∈ cues, cue.start < cue.stop) ∧
        operations = .addTrack (captionTrack (lastTrackId doc + 1) []) ::
          plannedCues (lastTrackId doc + 1) preset motion position (lastClipId doc.clips + 1) cues := by
  have hclips := hfree.clips
  have htrack : checkedAddId ((doc.tracks.map Track.id).max?.getD 0) 1 = some (lastTrackId doc + 1) := if_pos hfree.track
  simp only [animatedCaptionOperationsAt, bind_eq_ok, okOr_eq_ok, refuse_eq_ok, htrack, Option.some.injEq, Except.ok.injEq]
  constructor
  · rintro ⟨⟨⟩, hne, _, rfl, first, hfirst, rest, hrest, rfl⟩
    have hlength := length_pos_iff.mpr hne
    have hid : checkedAddId (lastClipId doc.clips) 1 = some (lastClipId doc.clips + 1) := if_pos (by omega)
    obtain rfl := Option.some.inj (hid.symm.trans hfirst)
    obtain ⟨hpos, rfl⟩ := (cueOperations_eq_ok hstarts (by omega)).mp hrest
    exact ⟨hne, hpos, rfl⟩
  · rintro ⟨hne, hpos, rfl⟩
    have hlength := length_pos_iff.mpr hne
    have hid : checkedAddId (lastClipId doc.clips) 1 = some (lastClipId doc.clips + 1) := if_pos (by omega)
    exact ⟨(), hne, _, rfl, _, hid, _, (cueOperations_eq_ok hstarts (by omega)).mpr ⟨hpos, rfl⟩, rfl⟩

/-! ## The clips of the cues -/

/-- The clips of cues, with ids from the given one on. -/
def captionClips (preset : CaptionPreset) (motion : CaptionMotion) (position : Option TitlePosition) (id : ℕ) :
    List CaptionCue → List Clip
  | [] => []
  | cue :: cues => captionClip preset position id cue (motionEffects cue.duration motion) ::
      captionClips preset motion position (id + 1) cues

theorem captionClips_concat (id : ℕ) (cues : List CaptionCue) (cue : CaptionCue) :
    captionClips preset motion position id (cues ++ [cue]) = captionClips preset motion position id cues ++
      [captionClip preset position (id + cues.length) cue (motionEffects cue.duration motion)] := by
  induction cues generalizing id with
  | nil => rfl
  | cons first cues ih =>
    rw [cons_append, captionClips, ih, captionClips, length_cons, cons_append, Nat.add_assoc, Nat.add_comm 1]

/-- A clip more with the id behind the last one. -/
theorem lastClipId_concat (clips : List Clip) (h : clip.id = lastClipId clips + 1) :
    lastClipId (clips ++ [clip]) = lastClipId clips + 1 := by
  have hlast (ids : List ℕ) (id : ℕ) (hid : id = ids.max?.getD 0 + 1) : (ids ++ [id]).max?.getD 0 = ids.max?.getD 0 + 1 := by
    cases ids with
    | nil => exact hid
    | cons first ids =>
      rw [cons_append, max?_cons', foldl_append, hid]
      exact Nat.max_eq_right (Nat.le_succ _)
  rw [lastClipId, map_append]
  exact hlast _ _ h

theorem lastClipId_captionClips (clips : List Clip) (cues : List CaptionCue) :
    lastClipId (clips ++ captionClips preset motion position (lastClipId clips + 1) cues)
      = lastClipId clips + cues.length := by
  induction cues using List.reverseRecOn with
  | nil => rw [captionClips, append_nil, length_nil, Nat.add_zero]
  | append_singleton cues cue ih =>
    rw [captionClips_concat, ← append_assoc, lastClipId_concat, ih, length_append, length_singleton, Nat.add_assoc]
    show lastClipId clips + 1 + cues.length = _
    rw [ih]
    exact Nat.add_right_comm _ 1 _

/-- The clips of the cues end where they do. -/
theorem captionClips_end (doc : Document) (hfits : ∀ cue ∈ cues, cue.Fits) {first : ℕ}
    (hclip : clip ∈ captionClips preset motion position first cues) : ∃ cue ∈ cues, doc.clipEnd clip = .ok cue.stop := by
  induction cues generalizing first with
  | nil => cases hclip
  | cons cue cues ih =>
    obtain ⟨hcue, hfits⟩ := forall_mem_cons.mp hfits
    rcases mem_cons.mp hclip with rfl | hclip
    · exact ⟨cue, mem_cons_self, captionClip_end doc hcue _⟩
    · obtain ⟨other, hother, hend⟩ := ih hfits hclip
      exact ⟨other, mem_cons_of_mem cue hother, hend⟩

/-! ## A run over the cues -/

/-- What the cues have to be for their captions to be accepted. -/
structure Placeable (motion : CaptionMotion) (cues : List CaptionCue) : Prop where
  fits : ∀ cue ∈ cues, cue.Fits
  apart : cues.Pairwise fun cue next => cue.stop ≤ next.start
  short : motion ≠ .none → ∀ cue ∈ cues, cue.duration.toInt ≤ maxKeyFrameOffset + 1

/-- Behind the captions of the cues before it, a cue gets the clip id that is planned for it. -/
theorem exists_plannedCue {done : List CaptionCue} (hfree : lastClipId doc.clips + done.length + 1 < 2 ^ 64)
    (hplaceable : Placeable motion (done ++ [cue])) (hkeeps : KeepsPosition preset position)
    (h : Captioning doc track (captionClips preset motion position (lastClipId doc.clips + 1) done) now) :
    ∃ next, Performs now (plannedCue track preset motion position (lastClipId doc.clips + 1 + done.length) cue) next ∧
      Captioning doc track (captionClips preset motion position (lastClipId doc.clips + 1) (done ++ [cue])) next := by
  have hmem : cue ∈ done ++ [cue] := mem_append_right _ (mem_singleton_self _)
  have hcue := hplaceable.fits cue hmem
  have hid : now.nextClipId = .ok (lastClipId doc.clips + 1 + done.length) := by
    have hlast : lastClipId (doc.clips ++ captionClips preset motion position (lastClipId doc.clips + 1) done)
        = lastClipId doc.clips + done.length := lastClipId_captionClips doc.clips done
    rw [← h.clips_eq, lastClipId] at hlast
    rw [Document.nextClipId, hlast, if_pos hfree, Nat.add_right_comm]
  have hbefore : ∀ clip ∈ captionClips preset motion position (lastClipId doc.clips + 1) done, ∀ stop,
      now.clipEnd clip = .ok stop → stop ≤ cue.start := by
    intro clip hclip stop hstop
    obtain ⟨hfits, -⟩ := forall_mem_append.mp hplaceable.fits
    obtain ⟨other, hother, hend⟩ := captionClips_end now hfits hclip
    obtain rfl := Except.ok.inj (hend.symm.trans hstop)
    exact (pairwise_append.mp hplaceable.apart).2.2 other hother cue (mem_singleton_self _)
  obtain ⟨middle, htitle, hmiddle⟩ := h.title hid hcue hkeeps hbefore
  have hmotion : MotionFits (motionEffects cue.duration motion) :=
    motionFits_motionEffects fun hmotion => hplaceable.short hmotion cue hmem
  obtain ⟨next, heffects, hnext⟩ := hmiddle.addEffects hcue hkeeps hmotion
  rw [captionClips_concat]
  exact ⟨next, htitle.append heffects, hnext⟩

/-- So do all cues, one after the other. -/
theorem exists_plannedCues {done : List CaptionCue} (hfree : lastClipId doc.clips + (done ++ cues).length < 2 ^ 64)
    (hplaceable : Placeable motion (done ++ cues)) (hkeeps : KeepsPosition preset position)
    (h : Captioning doc track (captionClips preset motion position (lastClipId doc.clips + 1) done) now) :
    ∃ next, Performs now (plannedCues track preset motion position (lastClipId doc.clips + 1 + done.length) cues) next ∧
      Captioning doc track (captionClips preset motion position (lastClipId doc.clips + 1) (done ++ cues)) next := by
  induction cues generalizing done now with
  | nil =>
    rw [append_nil]
    exact ⟨now, .nil now, h⟩
  | cons cue cues ih =>
    rw [append_cons done cue cues] at hfree hplaceable ⊢
    have hfirst : Placeable motion (done ++ [cue]) :=
      ⟨(forall_mem_append.mp hplaceable.fits).1, (pairwise_append.mp hplaceable.apart).1,
        fun hmotion => (forall_mem_append.mp (hplaceable.short hmotion)).1⟩
    rw [length_append, length_append, length_singleton] at hfree
    obtain ⟨middle, hcue, hmiddle⟩ := exists_plannedCue (by omega) hfirst hkeeps h
    obtain ⟨next, hrest, hnext⟩ := ih (by simp only [length_append, length_singleton]; omega) hplaceable hmiddle
    rw [length_append] at hrest
    exact ⟨next, hcue.append hrest, hnext⟩

/-! ## What an accepted plan has -/

/-- The operations of each cue are in the plan. -/
theorem exists_mem_plannedCues (hcue : cue ∈ cues) (id : ℕ) : ∃ planned, ∀ operation ∈
    plannedCue track preset motion position planned cue, operation ∈ plannedCues track preset motion position id cues := by
  induction cues generalizing id with
  | nil => cases hcue
  | cons first cues ih =>
    rcases mem_cons.mp hcue with rfl | hcue
    · exact ⟨id, fun operation hmem => mem_append_left _ hmem⟩
    · obtain ⟨planned, hplanned⟩ := ih hcue (id + 1)
      exact ⟨planned, fun operation hmem => mem_append_right _ (hplanned operation hmem)⟩

/-- The title of an accepted operation is where the preset has it. -/
theorem keepsPosition_of_accepted {edited : Draft} {text : String} {start duration : TimeCode}
    (h : (Operation.addTitle track start duration (captionTitle preset position text)).draft now = .ok edited) :
    KeepsPosition preset position := by
  rw [Operation.draft, Operation.edit, Draft.make, bind_eq_ok] at h
  obtain ⟨_, hadded, -⟩ := h
  simp only [addTitle, bind_eq_ok, refuse_eq_ok] at hadded
  obtain ⟨⟨⟩, -, ⟨⟩, hpos, _, -, ⟨⟩, -, id, -, ⟨⟩, htitle, -⟩ := hadded
  rw [Int64.le_iff_toInt_le, Int.not_le] at hpos
  exact ((validateTitle_captionTitle (Int.le_of_lt hpos)).mp htitle).2

/-- A caption whose opacity is keyed by an accepted operation ends in bounds. -/
theorem short_of_accepted {edited : Draft} {duration : TimeCode} (hlong : 1 < duration.toInt)
    (h : (Operation.addEffect id (opacityEffect duration)).draft now = .ok edited) :
    duration.toInt ≤ maxKeyFrameOffset + 1 := by
  have hinserted : insertEffect now id none (opacityEffect duration) = .ok edited.doc := by
    rw [Operation.draft, Operation.edit] at h
    exact keep_eq h
  simp only [insertEffect, bind_eq_ok, refuse_eq_ok, editClip] at hinserted
  obtain ⟨⟨⟩, heffect, ⟨⟩, -, ⟨⟩, hpoints, place, -, _, hedit, -⟩ := hinserted
  obtain ⟨_, -, ⟨⟩, hautomation, ⟨⟩, hluts, -⟩ := hedit
  have hvisual : VisualFits now id False (opacityEffect duration) :=
    ⟨rfl, False.elim, heffect, hluts, hpoints, (validateEffectAutomation_eq_ok rfl).mp hautomation⟩
  exact (visualFits_opacity hlong).mp hvisual

/-! ## Plans that apply -/

/-- A clip that shows a cue: in its interval, with its text, and with the effects of its motion. -/
structure ShowsCue (after : Document) (motion : CaptionMotion) (cue : CaptionCue) (clip : Clip) : Prop where
  start : clip.timelineStart = cue.start
  stop : after.clipEnd clip = .ok cue.stop
  text : ∃ title, clip.content = .title title ∧ title.text = cue.text
  effects : clip.effects = motionEffects (cue.stop - cue.start) motion

theorem forall₂_captionClips (after : Document) (hfits : ∀ cue ∈ cues, cue.Fits) (id : ℕ) :
    List.Forall₂ (ShowsCue after motion) cues (captionClips preset motion position id cues) := by
  induction cues generalizing id with
  | nil => exact .nil
  | cons cue cues ih =>
    obtain ⟨hcue, hfits⟩ := forall_mem_cons.mp hfits
    have htext : (captionTitle preset position cue.text).text = cue.text := by
      cases position <;> rfl
    exact .cons ⟨rfl, captionClip_end after hcue _, ⟨_, rfl, htext⟩, rfl⟩ (ih hfits (id + 1))

/-- The plan is made and accepted, and leaves the tracks behind which it adds a video track that shows the cues. -/
def Applies (doc : Document) (cues : List CaptionCue) (preset : CaptionPreset) (motion : CaptionMotion)
    (position : Option TitlePosition) : Prop :=
  ∃ operations after effects track, animatedCaptionOperationsAt doc cues preset motion position = .ok operations ∧
    applyBatch doc operations = .ok (after, effects) ∧ after.tracks = doc.tracks ++ [track] ∧ track.kind = .video ∧
      List.Forall₂ (ShowsCue after motion) cues track.clips

/-- A plan applies exactly if there are cues, each with a frame and, when it moves, none too long for a key on its last
frame, and the position is the one that the preset has anyway. -/
theorem animatedCaptionOperationsAt_applies (hvalid : doc.validate = .ok ()) (hfree : FreeIds doc cues)
    (hstarts : ∀ cue ∈ cues, 0 ≤ cue.start.toInt) (hapart : cues.Pairwise fun cue next => cue.stop ≤ next.start)
    (htexts : ∀ cue ∈ cues, validateTitleParameter "text" (.text cue.text) = .ok ()) :
    Applies doc cues preset motion position ↔ cues ≠ [] ∧ (∀ cue ∈ cues, cue.start < cue.stop) ∧
      (motion ≠ .none → ∀ cue ∈ cues, cue.stop.toInt - cue.start.toInt ≤ 2 ^ 40 + 1) ∧
        KeepsPosition preset position := by
  have hvalid := Document.valid_iff.mpr hvalid
  have hbound : (maxKeyFrameOffset : ℤ) = 2 ^ 40 := rfl
  constructor
  · rintro ⟨operations, after, effects, -, hplan, hbatch, -⟩
    obtain ⟨hne, hpos, rfl⟩ := (animatedCaptionOperationsAt_eq_ok hstarts hfree).mp hplan
    obtain ⟨-, hperforms⟩ := (applyBatch_eq_ok hvalid).mp ⟨effects, hbatch⟩
    have hfits : ∀ cue ∈ cues, cue.Fits := fun cue hcue => ⟨hstarts cue hcue, hpos cue hcue, htexts cue hcue⟩
    refine ⟨hne, hpos, fun hmotion cue hcue => ?_, ?_⟩
    · have hduration := (hfits cue hcue).duration_eq.1
      by_cases hlong : 1 < cue.duration.toInt
      · obtain ⟨planned, hplanned⟩ := exists_mem_plannedCues hcue (lastClipId doc.clips + 1)
        have hmoves : opacityEffect cue.duration ∈ motionEffects cue.duration motion := by
          have hmore : ¬ cue.duration ≤ 1 := by
            rw [Int64.le_iff_toInt_le]
            exact Int.not_le.mpr hlong
          rw [motionEffects, if_neg (not_or.mpr ⟨hmotion, hmore⟩)]
          exact mem_cons_self
        obtain ⟨before, edited, hdraft⟩ := hperforms.accepted (mem_cons_of_mem _
          (hplanned _ (mem_cons_of_mem _ (mem_map_of_mem hmoves))))
        have hshort := short_of_accepted hlong hdraft
        omega
      · omega
    · obtain ⟨cue, hcue⟩ := exists_mem_of_ne_nil cues hne
      obtain ⟨planned, hplanned⟩ := exists_mem_plannedCues hcue (lastClipId doc.clips + 1)
      obtain ⟨before, edited, hdraft⟩ := hperforms.accepted (mem_cons_of_mem _ (hplanned _ mem_cons_self))
      exact keepsPosition_of_accepted hdraft
  · rintro ⟨hne, hpos, hshort, hkeeps⟩
    have hfits : ∀ cue ∈ cues, cue.Fits := fun cue hcue => ⟨hstarts cue hcue, hpos cue hcue, htexts cue hcue⟩
    have hplaceable : Placeable motion ([] ++ cues) := by
      refine ⟨hfits, hapart, fun hmotion cue hcue => ?_⟩
      have hduration := (hfits cue hcue).duration_eq.1
      have hle := hshort hmotion cue hcue
      omega
    have hfresh : lastTrackId doc + 1 ∉ doc.tracks.map Track.id := fun hmem =>
      absurd (le_max?_getD_of_mem (k := 0) hmem) (Nat.not_succ_le_self _)
    obtain ⟨start, hadded, hstart⟩ := captioning_addTrack hvalid hfresh
    obtain ⟨after, hcues, hafter⟩ := exists_plannedCues hfree.clips hplaceable hkeeps hstart
    obtain ⟨effects, hbatch⟩ := (applyBatch_eq_ok hvalid).mpr ⟨cons_ne_nil _ _, hadded.append hcues⟩
    refine ⟨_, after, effects, _, (animatedCaptionOperationsAt_eq_ok hstarts hfree).mpr ⟨hne, hpos, rfl⟩, hbatch,
      hafter.tracks, rfl, ?_⟩
    exact forall₂_captionClips after hfits _

/-- Two captions that pop in, the second of them for a single frame. -/
def greeting : List CaptionCue := [⟨0, 15, "Hello"⟩, ⟨15, 16, "there"⟩]

theorem animatedCaptionOperationsAt_applies_greeting : Applies oneFrame greeting .social .pop none :=
  (animatedCaptionOperationsAt_applies (by decide +kernel) ⟨by decide +kernel, by decide +kernel⟩ (by decide) (by decide)
    (by decide +kernel)).mpr ⟨by decide, by decide, fun _ => by decide, by decide⟩

/-- A caption that is to be at the top, away from what is below, is refused by the check of its preset. -/
theorem caption_at_top_refused : oneFrame.validate = .ok () ∧ FreeIds oneFrame [⟨0, 15, "Hello"⟩] ∧
    validateTitleParameter "text" (.text "Hello") = .ok () ∧
      ¬ Applies oneFrame [⟨0, 15, "Hello"⟩] .social .none (some .top) := by
  refine ⟨by decide +kernel, ⟨by decide +kernel, by decide +kernel⟩, by decide +kernel, ?_⟩
  rintro ⟨operations, after, effects, track, hplan, hbatch, -⟩
  have hrefused : (animatedCaptionOperationsAt oneFrame [⟨0, 15, "Hello"⟩] .social .none (some .top)).toOption.all
      (fun operations => (applyBatch oneFrame operations).toOption.isNone) = true := by decide +kernel
  rw [hplan] at hrefused
  have hnone : (applyBatch oneFrame operations).toOption.isNone = true := hrefused
  rw [hbatch] at hnone
  cases hnone

end Kinewright.Captions
