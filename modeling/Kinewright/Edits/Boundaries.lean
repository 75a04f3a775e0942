import Kinewright.Edits.Rolls
import Kinewright.Model.Inverse

/-!
# Searching the boundaries of a source range

`operation.rs`: the three searches that halve an interval of source frames for a boundary that is mapped to a given length.
-/

namespace Kinewright.Edits

open Fallible Model Int64 Option Bisect

variable {start stop maximum length c : TimeCode} {rate fps : Rational}

/-- A search gives a boundary exactly when there is one that is looked for, and then such a one. -/
def Complete (found : Option TimeCode) (Sought : TimeCode → Prop) : Prop :=
  (found.isSome ↔ ∃ c, Sought c) ∧ ∀ c ∈ found, Sought c

/-- A boundary inside the source range at which the range up to it is mapped to the length. -/
def IsBoundary (source : FrameRange) (length : TimeCode) (rate fps : Rational) (c : TimeCode) : Prop :=
  source.start < c ∧ c < source.stop ∧ mapSourceRangeToProject source.start c rate fps = .ok length

/-- An end up to the maximum, to which the range is mapped to the length. -/
def IsEnd (start maximum length : TimeCode) (rate fps : Rational) (c : TimeCode) : Prop :=
  start < c ∧ c ≤ maximum ∧ mapSourceRangeToProject start c rate fps = .ok length

/-- A start from the minimum on, from which the range is mapped to the length. -/
def IsStart (minimum stop length : TimeCode) (rate fps : Rational) (c : TimeCode) : Prop :=
  minimum ≤ c ∧ c < stop ∧ mapSourceRangeToProject c stop rate fps = .ok length

/-- Of the ends that halving the interval toward the maximum tries, one is mapped to the length or a longer one. -/
def EndReached (start maximum length : TimeCode) (rate fps : Rational) : Prop :=
  ∃ k : ℕ, 2 ^ k ≤ maximum.toInt - start.toInt ∧ ∃ mapped, length ≤ mapped ∧ mapSourceRangeToProject start
    (Int64.ofInt (maximum.toInt - (maximum.toInt - start.toInt) / 2 ^ (k + 1))) rate fps = .ok mapped

/-! ## The order of the sides -/

/-- Below an end that is mapped, an end is mapped to no longer a range. -/
theorem exists_mapped_end {mapped : TimeCode} (h : mapSourceRangeToProject start stop rate fps = .ok mapped)
    (hlt : start.toInt < c.toInt) (hle : c.toInt ≤ stop.toInt) :
    ∃ shorter, mapSourceRangeToProject start c rate fps = .ok shorter ∧ shorter ≤ mapped := by
  obtain ⟨hs, hp, -⟩ := mapSourceRange_ok h
  obtain ⟨⟨hstart, -⟩, first, last, hfirst, hlast, hlength⟩ := mapSourceRange_eq_ok.mp h
  have hlastInt := (mapFrames_eq_ok hs hp (by omega)).mp hlast
  have hmono : carried rate fps c ≤ carried rate fps stop := carried_mono hle
  obtain ⟨middle, -, hmiddle⟩ := exists_tryFrom_of_lt (n := carried rate fps c) (by omega) (by have := last.toInt_lt; omega)
  have hmapped := (mapFrames_eq_ok hs hp (by omega)).mpr hmiddle
  have horder := mapFrames_mono hfirst hmapped hlt.le
  obtain ⟨shorter, -, hshorter⟩ := exists_tryFrom_of_lt (n := middle.toInt - first.toInt) (by omega)
    (by have := middle.toInt_lt; omega)
  refine ⟨shorter, mapSourceRange_eq_ok.mpr ⟨⟨hstart, hlt⟩, first, middle, hfirst, hmapped, hshorter⟩, ?_⟩
  rw [le_iff_toInt_le]
  omega

/-- Where one start is mapped every start is, an earlier one to no shorter a range. -/
theorem exists_mapped_start {mapped : TimeCode} (h : mapSourceRangeToProject start stop rate fps = .ok mapped)
    (hc : 0 ≤ c.toInt) (hlt : c.toInt < stop.toInt) : ∃ other, mapSourceRangeToProject c stop rate fps = .ok other ∧
      (c.toInt ≤ start.toInt → mapped ≤ other) := by
  obtain ⟨hs, hp, -⟩ := mapSourceRange_ok h
  obtain ⟨⟨hstart, -⟩, first, last, hfirst, hlast, hlength⟩ := mapSourceRange_eq_ok.mp h
  have hlastInt := (mapFrames_eq_ok hs hp (by omega)).mp hlast
  have hupper : carried rate fps c ≤ carried rate fps stop := carried_mono hlt.le
  have hbound := last.toInt_lt
  obtain ⟨middle, -, hmiddle⟩ := exists_tryFrom_of_lt (n := carried rate fps c) (by omega) (by omega)
  have hmapped := (mapFrames_eq_ok hs hp hc).mpr hmiddle
  obtain ⟨other, -, hother⟩ := exists_tryFrom_of_lt (n := last.toInt - middle.toInt) (by omega) (by omega)
  refine ⟨other, mapSourceRange_eq_ok.mpr ⟨⟨hc, hlt⟩, middle, last, hmapped, hlast, hother⟩, fun hle => ?_⟩
  have horder := mapFrames_mono hmapped hfirst hle
  rw [le_iff_toInt_le]
  omega

/-- A shorter range is on no later a side. -/
theorem level_sideOf_le {left right : Except TimeMappingError TimeCode}
    (h : ∀ mapped, right = .ok mapped → ∃ shorter, left = .ok shorter ∧ shorter ≤ mapped) :
    Bisect.level (sideOf length left) ≤ Bisect.level (sideOf length right) := by
  cases right with
  | error error => exact level_le _
  | ok mapped =>
    obtain ⟨shorter, rfl, hle⟩ := h mapped rfl
    rw [le_iff_toInt_le] at hle
    simp only [sideOf, Except.toOption, map_some, lt_iff_toInt_lt]
    split_ifs <;> first | decide | omega

theorem level_swap_le {left right : Except TimeMappingError TimeCode}
    (h : ∀ mapped, right = .ok mapped → ∃ longer, left = .ok longer ∧ mapped ≤ longer) :
    Bisect.level ((sideOf length left).map Ordering.swap) ≤ Bisect.level ((sideOf length right).map Ordering.swap) := by
  cases right with
  | error error => exact level_le _
  | ok mapped =>
    obtain ⟨longer, rfl, hle⟩ := h mapped rfl
    rw [le_iff_toInt_le] at hle
    simp only [sideOf, Except.toOption, map_some, lt_iff_toInt_lt]
    split_ifs <;> first | decide | omega

/-! ## What the searches find -/

/-- A search whose finds are sought is complete if and only if it finds something where something is sought. -/
theorem complete_iff {found : Option TimeCode} {Sought : TimeCode → Prop} {p : Prop} (hsound : ∀ c ∈ found, Sought c)
    (hfound : ∀ c, Sought c → (found.isSome ↔ p)) : Complete found Sought ↔ ((∃ c, Sought c) → p) := by
  constructor
  · rintro ⟨hcomplete, -⟩ ⟨c, hc⟩
    exact (hfound c hc).mp (hcomplete.mpr ⟨c, hc⟩)
  · refine fun h => ⟨⟨fun hsome => ?_, ?_⟩, hsound⟩
    · exact ⟨_, hsound _ (get_mem hsome)⟩
    · rintro ⟨c, hc⟩
      exact (hfound c hc).mpr (h ⟨c, hc⟩)

section Ends

variable (hstart : 0 ≤ start.toInt)

include hstart

/-- The ends behind the start are on the sides in the order of their positions. -/
theorem ordered_ends {low high : ℤ} (hlow : start.toInt < low) (hhigh : high < 2 ^ 63) : Bisect.Ordered (fun n =>
    sideOf length (mapSourceRangeToProject start (Int64.ofInt n) rate fps)) low high := by
  refine fun x y hx hxy hy => level_sideOf_le fun mapped hmapped => exists_mapped_end hmapped ?_ ?_
  · rw [toInt_ofInt_of_le (by omega) (by omega)]
    omega
  · rw [toInt_ofInt_of_le (by omega) (by omega), toInt_ofInt_of_le (by omega) (by omega)]
    exact hxy

/-- Where an end between the bounds is mapped to the length, the search finds one if and only if it reaches one. -/
theorem searchEnd_isSome_iff {low high : ℤ} (hlow : start.toInt < low) (hhigh : high < 2 ^ 63) (hle : low ≤ c.toInt)
    (hge : c.toInt ≤ high) (hc : mapSourceRangeToProject start c rate fps = .ok length) :
    (searchBoundary ⟨start, stop⟩ length rate fps (high - low + 1).toNat low high).isSome ↔ Bisect.Reached (fun n =>
      sideOf length (mapSourceRangeToProject start (Int64.ofInt n) rate fps)) low high := by
  rw [searchBoundary_eq, isSome_map]
  refine find_isSome_iff _ (Int.self_le_toNat _) (ordered_ends hstart hlow hhigh) hle hge ?_
  rw [ofInt_toInt]
  exact sideOf_eq.mpr hc

end Ends

/-- A mapped length that is not before the searched one. -/
theorem exists_sideOf_ne_lt {mapped : Except TimeMappingError TimeCode} :
    (∃ o ≠ Ordering.lt, sideOf length mapped = some o) ↔ ∃ found, length ≤ found ∧ mapped = .ok found := by
  cases mapped with
  | error error => simp [sideOf, Except.toOption]
  | ok mapped =>
    simp only [sideOf, Except.toOption, map_some, Option.some.injEq, Except.ok.injEq, exists_eq_right', ne_eq]
    split_ifs with hless hgreater
    · simp [Int64.not_le.mpr hless]
    · simp [Int64.le_of_lt hgreater]
    · simp [Int64.not_lt.mp hless]

/-- The search for an end is complete if and only if it reaches an end that is not too short, unless none is exact. -/
theorem sourceEnd_complete_iff (hstart : 0 ≤ start.toInt) :
    Complete (sourceEndForProjectDuration start maximum rate fps length) (IsEnd start maximum length rate fps) ↔
      ((∃ c, IsEnd start maximum length rate fps c) → EndReached start maximum length rate fps) := by
  refine complete_iff (fun c hc => ?_) fun c hc => ?_
  · rw [mem_def, sourceEndForProjectDuration, bind_eq_bind, bind_eq_some_iff] at hc
    obtain ⟨low, hadd, hc⟩ := hc
    have hlow : low.toInt = start.toInt + 1 := checkedAdd_eq_some.mp hadd
    obtain ⟨n, hn, hn', rfl, hmapped⟩ := searchBoundary_ok hc
    have hvalue := toInt_ofInt_between hn hn'
    exact ⟨lt_iff_toInt_lt.mpr (by omega), le_iff_toInt_le.mpr (by omega), hmapped⟩
  · obtain ⟨hafter, hbefore, hmapped⟩ := hc
    rw [lt_iff_toInt_lt] at hafter
    rw [le_iff_toInt_le] at hbefore
    have hmax := maximum.toInt_lt
    obtain ⟨low, hadd, hlow⟩ := exists_tryFrom_of_lt (n := start.toInt + 1) (by omega) (by omega)
    rw [sourceEndForProjectDuration, show checkedAdd start 1 = some low from hadd, bind_eq_bind, bind_some,
      searchEnd_isSome_iff hstart (by omega) (by omega) (by omega) hbefore hmapped, EndReached, Bisect.Reached,
      show maximum.toInt - low.toInt + 1 = maximum.toInt - start.toInt by omega]
    simp only [exists_sideOf_ne_lt]

/-- Inside a source range that is mapped the search is complete. -/
theorem sourceBoundary_complete {source : FrameRange} {mapped : TimeCode}
    (h : mapSourceRangeToProject source.start source.stop rate fps = .ok mapped) :
    Complete (findSourceBoundary source length rate fps) (IsBoundary source length rate fps) := by
  obtain ⟨-, -, hstart, hlt, -⟩ := mapSourceRange_ok h
  have hmax := source.stop.toInt_lt
  obtain ⟨low, hadd, hlow⟩ := exists_tryFrom_of_lt (n := source.start.toInt + 1) (by omega) (by omega)
  obtain ⟨high, hsub, hhigh⟩ := exists_tryFrom_of_lt (n := source.stop.toInt - 1) (by omega) (by omega)
  rw [findSourceBoundary, show checkedAdd source.start 1 = some low from hadd,
    show checkedSub source.stop 1 = some high from hsub, bind_eq_bind, bind_some, bind_some]
  refine (complete_iff (p := True) (fun c hc => ?_) fun c hc => iff_of_true ?_ trivial).mpr fun _ => trivial
  · obtain ⟨n, hn, hn', rfl, hmapped⟩ := searchBoundary_ok hc
    have hvalue := toInt_ofInt_between hn hn'
    exact ⟨lt_iff_toInt_lt.mpr (by omega), lt_iff_toInt_lt.mpr (by omega), hmapped⟩
  · obtain ⟨hafter, hbefore, hmapped⟩ := hc
    rw [lt_iff_toInt_lt] at hafter hbefore
    refine (searchEnd_isSome_iff hstart (by omega) (by omega) (by omega) (by omega) hmapped).mpr ?_
    refine reached_of_ordered (n := c.toInt) (ordered_ends hstart (by omega) (by omega)) (by omega) (by omega) ?_ ?_
    · rw [ofInt_toInt]
      exact sideOf_eq.mpr hmapped
    · obtain ⟨shorter, hshorter, -⟩ := exists_mapped_end (c := high) h (by omega) (by omega)
      rw [ofInt_toInt, hshorter]
      exact some_ne_none _

/-- The search for a start is complete: where one is exact, the range from every start is mapped. -/
theorem sourceStart_complete {minimum : TimeCode} (hminimum : 0 ≤ minimum.toInt) :
    Complete (sourceStartForProjectDuration minimum stop rate fps length) (IsStart minimum stop length rate fps) := by
  refine (complete_iff (p := True) (fun c hc => ?_) fun c hc => iff_of_true ?_ trivial).mpr fun _ => trivial
  · rw [mem_def, sourceStartForProjectDuration, bind_eq_bind, bind_eq_some_iff] at hc
    obtain ⟨high, hsub, hc⟩ := hc
    have hhigh : high.toInt = stop.toInt - 1 := checkedSub_eq_some.mp hsub
    obtain ⟨n, hn, hn', rfl, hmapped⟩ := searchStart_ok hc
    have hvalue := toInt_ofInt_between hn hn'
    exact ⟨le_iff_toInt_le.mpr (by omega), lt_iff_toInt_lt.mpr (by omega), hmapped⟩
  · obtain ⟨hafter, hbefore, hmapped⟩ := hc
    rw [le_iff_toInt_le] at hafter
    rw [lt_iff_toInt_lt] at hbefore
    have hmax := stop.toInt_lt
    obtain ⟨high, hsub, hhigh⟩ := exists_tryFrom_of_lt (n := stop.toInt - 1) (by omega) (by omega)
    have hordered : Bisect.Ordered (fun n => (sideOf length (mapSourceRangeToProject (Int64.ofInt n) stop rate fps)).map
        Ordering.swap) minimum.toInt high.toInt := by
      refine fun x y hx hxy hy => level_swap_le fun mapped hmapped => ?_
      have hx' : (Int64.ofInt x).toInt = x := toInt_ofInt_between hx (hxy.trans hy)
      have hy' : (Int64.ofInt y).toInt = y := toInt_ofInt_between (hx.trans hxy) hy
      obtain ⟨longer, hlonger, hle⟩ := exists_mapped_start (c := Int64.ofInt x) hmapped (by omega) (by omega)
      exact ⟨longer, hlonger, hle (by omega)⟩
    have hexact : (fun n => (sideOf length (mapSourceRangeToProject (Int64.ofInt n) stop rate fps)).map Ordering.swap) c.toInt
        = some .eq := by
      dsimp only
      rw [ofInt_toInt, sideOf_eq.mpr hmapped]
      rfl
    rw [sourceStartForProjectDuration, show checkedSub stop 1 = some high from hsub, bind_eq_bind, bind_some,
      searchStart_eq, isSome_map]
    refine (find_isSome_iff _ (Int.self_le_toNat _) hordered hafter (by omega) hexact).mpr
      (reached_of_ordered hordered hafter (by omega) hexact ?_)
    obtain ⟨other, hother, -⟩ := exists_mapped_start (c := high) hmapped (by omega) (by omega)
    rw [ofInt_toInt, hother]
    exact some_ne_none _

/-- For a clip of media on a valid document the searches inside its range and for a start are complete. The search for an end
toward the end of the media stops at the first length that is not a frame count, so it is complete if and only if it reaches
an end that is not too short before, unless no end is exact. -/
theorem searches_complete_iff {checks : Checks} {doc : Document} (hvalid : validateDocument checks doc = .ok ()) {clip : Clip}
    (hclip : clip ∈ doc.clips) (hmedia : clip.content = .media) {media : MediaAsset} (hasset : doc.asset clip.asset = some media)
    (hrate : clipEffectiveFps media.fps clip = .ok rate) (length : TimeCode) :
    (Complete (findSourceBoundary clip.sourceRange length rate doc.fps) (IsBoundary clip.sourceRange length rate doc.fps) ∧
      Complete (sourceEndForProjectDuration clip.sourceRange.start media.duration rate doc.fps length)
        (IsEnd clip.sourceRange.start media.duration length rate doc.fps) ∧
      Complete (sourceStartForProjectDuration 0 clip.sourceRange.stop rate doc.fps length)
        (IsStart 0 clip.sourceRange.stop length rate doc.fps)) ↔
      ((∃ c, IsEnd clip.sourceRange.start media.duration length rate doc.fps c) →
        EndReached clip.sourceRange.start media.duration length rate doc.fps) := by
  have hfits := validateDocument_ok hvalid
  obtain ⟨stop, hstop, -⟩ := hfits.stops clip hclip
  obtain ⟨asset, effectiveFps, hconsumes⟩ := Timeline.consumes hmedia hstop
  obtain rfl := Option.some.inj (hasset.symm.trans hconsumes.found)
  obtain rfl := Except.ok.inj (hrate.symm.trans hconsumes.rate)
  obtain ⟨duration, hmapped, -⟩ := hconsumes.stop
  obtain ⟨-, -, hstart, -⟩ := mapSourceRange_ok hmapped
  rw [sourceEnd_complete_iff hstart]
  constructor
  · exact fun h => h.2.1
  · exact fun h => ⟨sourceBoundary_complete hmapped, h, sourceStart_complete (le_refl _)⟩

open Timeline (demoAsset demoChecks demoClip demoDocument)

theorem searches_complete_second : Complete (sourceEndForProjectDuration 10 90 ⟨24, 1⟩ ⟨30, 1⟩ 30)
    (IsEnd 10 90 30 ⟨24, 1⟩ ⟨30, 1⟩) := by
  have hvalid : validateDocument demoChecks demoDocument = .ok () := by decide
  have hclip : demoClip ∈ demoDocument.clips := by decide
  have hasset : demoDocument.asset demoClip.asset = some demoAsset := rfl
  have hrate : clipEffectiveFps demoAsset.fps demoClip = .ok ⟨24, 1⟩ := by decide
  exact ((searches_complete_iff hvalid hclip rfl hasset hrate 30).mpr fun _ => ⟨0, by decide, 50, by decide, by decide⟩).2.1

/-- A source of a frame a second with a very long duration. -/
def longAsset : MediaAsset := { demoAsset with duration := 4611686018427387904, fps := ⟨1, 1⟩ }

/-- A clip of 24 frames of it. -/
def longSource : Document := { demoDocument with mediaPool := [longAsset], duration := 725 }

/-- The clip lasts 720 frames up to frame 34 of its source, but no end is found for that length. -/
theorem sourceEnd_not_found : validateDocument demoChecks longSource = .ok () ∧ demoClip ∈ longSource.clips ∧
    longSource.asset demoClip.asset = some longAsset ∧ clipEffectiveFps longAsset.fps demoClip = .ok ⟨1, 1⟩ ∧
    ¬ Complete (sourceEndForProjectDuration demoClip.sourceRange.start longAsset.duration ⟨1, 1⟩ longSource.fps 720)
      (IsEnd demoClip.sourceRange.start longAsset.duration 720 ⟨1, 1⟩ longSource.fps) := by
  refine ⟨by decide, by decide, rfl, by decide, fun h => ?_⟩
  have hnone : sourceEndForProjectDuration demoClip.sourceRange.start longAsset.duration ⟨1, 1⟩ longSource.fps 720 = none := by
    decide
  have hsome := h.1.mpr ⟨34, by decide, by decide, by decide⟩
  rw [hnone] at hsome
  cases hsome

end Kinewright.Edits
