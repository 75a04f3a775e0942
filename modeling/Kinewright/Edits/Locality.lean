import Kinewright.Edits.Stills
import Kinewright.Edits.Overwrites
import Kinewright.Edits.Targets

/-!
# Overwrites are local

`operation.rs`: an edit that overwrites puts one clip onto each of its tracks, and changes nothing outside the
range and the tracks. A clip that goes on over a boundary of the range is cut there, and goes on as its part.
-/

namespace Kinewright.Edits

open Fallible Model List

/-! ## What covers a frame -/

/-- The clip covers the frame. -/
def Covers (doc : Document) (clip : Clip) (frame : TimeCode) : Prop :=
  ∃ stop, doc.clipEnd clip = .ok stop ∧ clip.timelineStart ≤ frame ∧ frame < stop

/-- The content apart from the fades of a title. -/
def withoutFades : ClipContent → ClipContent
  | .title title => .title { title with fadeInFrames := 0, fadeOutFrames := 0 }
  | content => content

/-- The frame lies in the range. -/
def InRange (range : FrameRange) (frame : TimeCode) : Prop := range.start ≤ frame ∧ frame < range.stop

/-- A clip goes on as a clip of the same asset and the same content, and as itself where it is not cut. A cut
of a title drops its fades there. -/
structure Continues (cut : Clip → Bool) (clip clip' : Clip) : Prop where
  asset : clip'.asset = clip.asset
  content : withoutFades clip'.content = withoutFades clip.content
  whole : cut clip = false → clip' = clip

variable {doc between after : Document} {draft next : Draft} {track : TrackId} {found : Track} {clip clip' : Clip}
  {clips clips' middle last : List Clip} {made passing : List ClipId} {at_ frame : TimeCode} {range : FrameRange}

/-- The frame is covered by clips that go on as each other, or by none. -/
def SameCover (doc after : Document) (cut : Clip → Bool) (clips clips' : List Clip) (frame : TimeCode) : Prop :=
  (∀ clip ∈ clips, Covers doc clip frame → ∃ clip' ∈ clips', Covers after clip' frame ∧ Continues cut clip clip') ∧
    ∀ clip' ∈ clips', Covers after clip' frame → ∃ clip ∈ clips, Covers doc clip frame ∧ Continues cut clip clip'

theorem covers_of_stop {stop : TimeCode} (hstop : doc.clipEnd clip = .ok stop) :
    Covers doc clip frame ↔ clip.timelineStart ≤ frame ∧ frame < stop := by
  constructor
  · rintro ⟨stop', hstop', hcovers⟩
    obtain rfl := Except.ok.inj (hstop.symm.trans hstop')
    exact hcovers
  · exact fun hcovers => ⟨stop, hstop, hcovers⟩

theorem covers_of_end {stop : TimeCode} (hstop : doc.clipEnd clip = .ok stop) :
    Covers doc clip frame ↔ clip.timelineStart.toInt ≤ frame.toInt ∧ frame.toInt < stop.toInt := by
  rw [covers_of_stop hstop, Int64.le_iff_toInt_le, Int64.lt_iff_toInt_lt]

/-- No frame is covered by two clips that are apart. -/
theorem ApartOn.not_both {other : Clip} (hapart : ApartOn doc clips) (hclip : clip ∈ clips) (hother : other ∈ clips)
    (hne : clip ≠ other) (hcovers : Covers doc clip frame) : ¬ Covers doc other frame := by
  rintro ⟨stop', hstop', hstart', hlt'⟩
  obtain ⟨stop, hstop, hstart, hlt⟩ := hcovers
  rcases hapart clip hclip other hother hne stop stop' hstop hstop' with hle | hle
  · exact absurd (Int64.lt_of_lt_of_le hlt (Int64.le_trans hle hstart')) Int64.lt_irrefl
  · exact absurd (Int64.lt_of_lt_of_le hlt' (Int64.le_trans hle hstart)) Int64.lt_irrefl

theorem Continues.refl (cut : Clip → Bool) (clip : Clip) : Continues cut clip clip := ⟨rfl, rfl, fun _ => rfl⟩

namespace Cut

variable {original : Clip} (cut : Cut doc original at_)

theorem withoutFades_left : withoutFades cut.left.content = withoutFades original.content := by
  have heq : cut.left.content = (splitLeft original cut.boundary cut.offset).content := rfl
  rw [heq]
  cases hcontent : original.content with
  | title title => simp [splitLeft, hcontent, withoutFades]
  | _ => simp [splitLeft, hcontent]

theorem withoutFades_right (id : ClipId) : withoutFades (cut.right id).content = withoutFades original.content := by
  have heq : (cut.right id).content = cut.rightContent := rfl
  rw [heq, rightContent]
  cases hcontent : original.content with
  | title title => rfl
  | _ => rfl

/-- A frame of the clip is in the left part before the cut, and in the right part from the cut on. -/
theorem covers_iff {id : ClipId} (hhalved : cut.Halved id) :
    Covers doc original frame ↔ Covers doc cut.left frame ∨ Covers doc (cut.right id) frame := by
  have hstart := Int64.lt_iff_toInt_lt.mp cut.start_lt
  have hstop := Int64.lt_iff_toInt_lt.mp cut.lt_stop
  have hleft : cut.left.timelineStart = original.timelineStart := rfl
  have hright : (cut.right id).timelineStart = at_ := rfl
  rw [covers_of_end cut.clipEnd, covers_of_end hhalved.leftEnd, covers_of_end hhalved.rightEnd, hleft, hright]
  omega

end Cut

/-! ## Splitting and deleting -/

/-- A split leaves every frame covered as it was. -/
theorem SplitAt.sameCover (h : SplitAt doc at_ clips made clips') (hnodup : (clips.map Clip.id).Nodup) :
    SameCover doc doc (straddles doc at_) clips clips' frame := by
  cases h with
  | whole hnone =>
    exact ⟨fun clip hclip hcovers => ⟨clip, hclip, hcovers, .refl _ clip⟩,
      fun clip hclip hcovers => ⟨clip, hclip, hcovers, .refl _ clip⟩⟩
  | @halved original _ cut id horiginal hhalved hfresh hperm =>
    have hleft : Continues (straddles doc at_) original cut.left :=
      ⟨rfl, cut.withoutFades_left, fun hwhole => absurd (cut.straddles.symm.trans hwhole) (by simp)⟩
    have hright : Continues (straddles doc at_) original (cut.right id) :=
      ⟨rfl, cut.withoutFades_right id, fun hwhole => absurd (cut.straddles.symm.trans hwhole) (by simp)⟩
    constructor
    · intro clip hclip hcovers
      by_cases hid : clip.id = original.id
      · obtain rfl := inj_on_of_nodup_map hnodup hclip horiginal hid
        rcases (cut.covers_iff hhalved).mp hcovers with hcovers | hcovers
        · exact ⟨cut.left, hperm.mem_iff.mpr (by simp), hcovers, hleft⟩
        · exact ⟨cut.right id, hperm.mem_iff.mpr (by simp), hcovers, hright⟩
      · have hmem : clip ∈ clips.filter fun other => other.id ≠ original.id :=
          mem_filter.mpr ⟨hclip, by simpa using hid⟩
        exact ⟨clip, hperm.mem_iff.mpr (mem_cons_of_mem _ (mem_cons_of_mem _ hmem)), hcovers, .refl _ clip⟩
    · intro clip' hclip' hcovers
      rcases mem_cons.mp (hperm.mem_iff.mp hclip') with rfl | hclip'
      · exact ⟨original, horiginal, (cut.covers_iff hhalved).mpr (.inl hcovers), hleft⟩
      · rcases mem_cons.mp hclip' with rfl | hclip'
        · exact ⟨original, horiginal, (cut.covers_iff hhalved).mpr (.inr hcovers), hright⟩
        · exact ⟨clip', (mem_filter.mp hclip').1, hcovers, .refl _ clip'⟩

/-- What goes on twice goes on. -/
theorem Continues.trans {cut cut' : Clip → Bool} {clip'' : Clip} (h : Continues cut clip clip')
    (h' : Continues cut' clip' clip'') : Continues (fun clip => cut clip || cut' clip) clip clip'' := by
  refine ⟨h'.asset.trans h.asset, h'.content.trans h.content, fun hwhole => ?_⟩
  rw [Bool.or_eq_false_iff] at hwhole
  obtain rfl := h.whole hwhole.1
  exact h'.whole hwhole.2

theorem SameCover.trans {cut cut' : Clip → Bool} (h : SameCover doc between cut clips middle frame)
    (h' : SameCover between after cut' middle last frame) :
    SameCover doc after (fun clip => cut clip || cut' clip) clips last frame := by
  constructor
  · intro clip hclip hcovers
    obtain ⟨clip', hclip', hcovers', hcontinues⟩ := h.1 clip hclip hcovers
    obtain ⟨clip'', hclip'', hcovers'', hcontinues'⟩ := h'.1 clip' hclip' hcovers'
    exact ⟨clip'', hclip'', hcovers'', hcontinues.trans hcontinues'⟩
  · intro clip'' hclip'' hcovers''
    obtain ⟨clip', hclip', hcovers', hcontinues'⟩ := h'.2 clip'' hclip'' hcovers''
    obtain ⟨clip, hclip, hcovers, hcontinues⟩ := h.2 clip' hclip' hcovers'
    exact ⟨clip, hclip, hcovers, hcontinues.trans hcontinues'⟩

theorem SameCover.of_clipEnd {cut : Clip → Bool} (h : SameCover doc doc cut clips last frame)
    (hend : after.clipEnd = doc.clipEnd) : SameCover doc after cut clips last frame := by
  have hcovers (clip : Clip) : Covers after clip frame = Covers doc clip frame := by rw [Covers, hend, Covers]
  simp only [SameCover, hcovers] at h ⊢
  exact h

/-- A clip that is added does not cover the frame. -/
theorem SameCover.add {cut : Clip → Bool} {new : Clip} (h : SameCover doc after cut clips last frame)
    (hperm : clips'.Perm (new :: last)) (hout : ¬ Covers after new frame) :
    SameCover doc after cut clips clips' frame := by
  constructor
  · intro clip hclip hcovers
    obtain ⟨clip', hclip', hcovers'⟩ := h.1 clip hclip hcovers
    exact ⟨clip', hperm.mem_iff.mpr (mem_cons_of_mem _ hclip'), hcovers'⟩
  · intro clip' hclip' hcovers
    rcases mem_cons.mp (hperm.mem_iff.mp hclip') with rfl | hclip'
    · exact absurd hcovers hout
    · exact h.2 clip' hclip' hcovers

/-- A clip goes on over the start or the end of the range. -/
def isCut (doc : Document) (range : FrameRange) (clip : Clip) : Bool :=
  straddles doc range.stop clip || straddles doc range.start clip

/-- Outside the range, what is deleted covers nothing. -/
theorem sameCover_filter {cut : Clip → Bool} (hframe : ¬ InRange range frame)
    (h : SameCover doc doc cut clips last frame) :
    SameCover doc doc cut clips (last.filter fun clip => isInside doc range clip = false) frame := by
  constructor
  · intro clip hclip hcovers
    obtain ⟨clip', hclip', hcovers', hcontinues⟩ := h.1 clip hclip hcovers
    refine ⟨clip', mem_filter.mpr ⟨hclip', ?_⟩, hcovers', hcontinues⟩
    by_contra hin
    obtain ⟨stop, hstop, hstart, hle⟩ := isInside_iff.mp (by simpa using hin)
    obtain ⟨stop', hstop', hfirst, hlast⟩ := hcovers'
    obtain rfl := Except.ok.inj (hstop.symm.trans hstop')
    exact hframe ⟨Int64.le_trans hstart hfirst, Int64.lt_of_lt_of_le hlast hle⟩
  · exact fun clip' hclip' => h.2 clip' (mem_filter.mp hclip').1

/-! ## Clearing the tracks -/

theorem clearTrackRange_local (hdistinct : Distinct draft.doc) (h : clearTrackRange range draft track = .ok next) :
    ∃ found clips, trackOf draft.doc track = .ok found ∧ next.doc = withClips draft.doc track clips ∧
      Distinct next.doc ∧ ∀ frame, ¬ InRange range frame →
        SameCover draft.doc draft.doc (isCut draft.doc range) found.clips clips frame := by
  have htrack : ∃ found, trackOf draft.doc track = .ok found := by
    have hfirst := h
    rw [clearTrackRange, bind_eq_ok] at hfirst
    obtain ⟨_, hfirst, -⟩ := hfirst
    rw [Draft.each, bind_eq_ok] at hfirst
    obtain ⟨_, hfirst, -⟩ := hfirst
    rw [splitTrack, bind_eq_ok] at hfirst
    obtain ⟨found, hfound, -⟩ := hfirst
    exact ⟨found, hfound⟩
  obtain ⟨found, hfound⟩ := htrack
  obtain ⟨made, passing, middle, last, hmiddle, hlast, hdoc, -, -, -, hdistinct'⟩ :=
    clearTrackRange_ok hdistinct hfound h
  have hnodup := hdistinct.clips_nodup hfound
  refine ⟨found, _, hfound, hdoc, hdistinct', fun frame hframe => sameCover_filter hframe ?_⟩
  exact (hmiddle.sameCover hnodup).trans (hlast.sameCover (hmiddle.nodup hnodup))

theorem clearEach_local {targets : List TrackId} (hdistinct : Distinct draft.doc) (hnodup : targets.Nodup)
    (h : Draft.each (clearTrackRange range) draft targets = .ok next) :
    Distinct next.doc ∧ Elsewhere targets draft.doc next.doc ∧ ∀ track ∈ targets, ∃ found clips,
      trackOf draft.doc track = .ok found ∧ trackOf next.doc track = .ok (setClips clips found) ∧
        ∀ frame, ¬ InRange range frame →
          SameCover draft.doc draft.doc (isCut draft.doc range) found.clips clips frame := by
  induction targets generalizing draft with
  | nil =>
    obtain rfl := Except.ok.inj h
    exact ⟨hdistinct, .refl [] _, forall_mem_nil _⟩
  | cons track targets ih =>
    rw [Draft.each, bind_eq_ok] at h
    obtain ⟨cleared, hcleared, h⟩ := h
    obtain ⟨found, clips, hfound, hdoc, hdistinct', hlocal⟩ := clearTrackRange_local hdistinct hcleared
    rw [nodup_cons] at hnodup
    obtain ⟨hlast, helsewhere, heach⟩ := ih hdistinct' hnodup.2 h
    have hfirst : Elsewhere [track] draft.doc cleared.doc := hdoc ▸ .withClips draft.doc track clips
    refine ⟨hlast, hfirst.trans helsewhere, fun other hother => ?_⟩
    rcases mem_cons.mp hother with rfl | hother
    · refine ⟨found, clips, hfound, ?_, hlocal⟩
      rw [helsewhere.others other hnodup.1, hdoc]
      exact trackOf_withClips hfound
    · obtain ⟨found', clips', hfound', hafter, hlocal'⟩ := heach other hother
      have hne : other ∉ [track] := fun hmem => hnodup.1 (mem_singleton.mp hmem ▸ hother)
      rw [hfirst.others other hne] at hfound'
      refine ⟨found', clips', hfound', hafter, ?_⟩
      rw [hdoc] at hlocal'
      exact hlocal'

/-! ## Overwrites -/

/-- A clip that is placed covers the range that its source is mapped to. -/
theorem clipEnd_placed {media : MediaAsset} {asset : AssetId} {marks : Marks} {source : FrameRange}
    {link : Option LinkId} {id : ClipId} (hmedia : doc.asset asset = some media)
    (hranges : deriveThreePointRanges doc media marks = .ok (source, range)) :
    doc.clipEnd (placedClip asset source range.start link id) = .ok range.stop := by
  rw [deriveThreePointRanges, bind_eq_ok] at hranges
  obtain ⟨⟨source', timeline⟩, -, hranges⟩ := hranges
  simp only [bind_eq_ok, Except.ok.injEq, Prod.mk.injEq] at hranges
  obtain ⟨_, -, _, -, duration, hduration, mapped, hmapped, _, hsame, rfl, rfl⟩ := hranges
  rw [refuse_eq_ok, not_not] at hsame
  subst hsame
  rw [timelineDuration, okOr_eq_ok, checkedSub_eq_some] at hduration
  rw [projectDuration, mapError_eq_ok] at hmapped
  have hlength : doc.clipDuration (placedClip asset source' timeline.start link id) = .ok mapped :=
    (clipDuration_media rfl).mpr ⟨media, media.fps, hmedia, rfl, hmapped⟩
  rw [Document.clipEnd, hlength, ok_bind, okOr_eq_ok, checkedAdd_eq_some, hduration]
  show timeline.stop.toInt = timeline.start.toInt + (timeline.stop.toInt - timeline.start.toInt)
  omega

/-- What an overwrite of the range makes of a track. -/
structure Overwritten (doc after : Document) (range : FrameRange) (new : Clip) (found found' : Track) : Prop where
  rest : found' = setClips found'.clips found
  placed : new ∈ found'.clips
  covers : ∀ frame, Covers after new frame ↔ InRange range frame
  only : ∀ clip ∈ found'.clips, ∀ frame, InRange range frame → Covers after clip frame → clip = new
  outside : ∀ frame, ¬ InRange range frame → SameCover doc after (isCut doc range) found.clips found'.clips frame

instance : Decidable (Covers doc clip frame) :=
  match hstop : doc.clipEnd clip with
  | .ok _ => decidable_of_iff _ (covers_of_stop hstop).symm
  | .error _ => isFalse fun ⟨_, hstop', _⟩ => by
    rw [hstop] at hstop'
    cases hstop'

/-- A title of ten frames that fades out over four. -/
def fadingTitle : Clip :=
  newClip 1 0 ⟨0, 10⟩ (.title
      { text := "Title"
        fontSizeToken := 0
        colorToken := 0
        position := .center
        backgroundScrim := false
        fadeInFrames := 0
        fadeOutFrames := 4
        captionPreset := none }) 0 []

/-- A document of a title that fades out. -/
def titled : Document :=
  { oneFrame with
    tracks := [{ id := 1, kind := .video, syncLock := false, clips := [fadingTitle] }]
    duration := 10 }

/-- An overwrite of a frame in the middle. -/
def overwriteMiddle : ThreePoint := ⟨1, ⟨some 20, some 21, some 5, none⟩, .overwrite, [1]⟩

end Kinewright.Edits
