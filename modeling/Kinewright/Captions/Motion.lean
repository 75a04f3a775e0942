import Kinewright.Captions.Titles
import Kinewright.Model.ClipData

/-!
# The curves of a caption that moves

The frames on which a caption has come in and goes out are frames of it, also where they collide. So the curves of a motion
are accepted exactly if the last frame of the caption is no further out than a key may be.
-/

namespace Kinewright.Captions

open Fallible Model Edits List

variable {doc : Document} {clip : ClipId} {adjusts : Prop} {duration : TimeCode} {motion : CaptionMotion}
  {keys : List Keyframe} {key : Keyframe}

/-! ## Keys of which the last of a frame is kept -/

theorem mem_insertKey_self (key : Keyframe) (keys : List Keyframe) : key ∈ insertKey key keys := by
  induction keys with
  | nil => exact mem_singleton_self key
  | cons next keys ih =>
    rw [insertKey]
    split
    · exact mem_cons_self
    · split
      · exact mem_cons_self
      · exact mem_cons_of_mem next ih

theorem ordered_foldl_insertKey (h : Ordered keys) (new : List Keyframe) :
    Ordered (new.foldl (fun keys key => insertKey key keys) keys) := by
  induction new generalizing keys with
  | nil => exact h
  | cons key new ih => exact ih (ordered_insertKey h key)

theorem mem_foldl_insertKey (new : List Keyframe) (h : key ∈ new.foldl (fun keys key => insertKey key keys) keys) :
    key ∈ new ∨ key ∈ keys := by
  induction new generalizing keys with
  | nil => exact .inr h
  | cons first new ih =>
    rcases ih h with hnew | hkeys
    · exact .inl (mem_cons_of_mem first hnew)
    · rcases mem_insertKey hkeys with rfl | hkeys
      · exact .inl mem_cons_self
      · exact .inr hkeys

theorem mem_dedupKeyframes (h : key ∈ (dedupKeyframes keys).keyframes) : key ∈ keys := by
  rcases mem_foldl_insertKey keys h with hkeys | hnil
  · exact hkeys
  · cases hnil

/-- The last key is kept. -/
theorem mem_dedupKeyframes_concat (keys : List Keyframe) (key : Keyframe) :
    key ∈ (dedupKeyframes (keys ++ [key])).keyframes := by
  rw [dedupKeyframes, foldl_concat]
  exact mem_insertKey_self key _

/-- Keys in bounds make a curve. -/
theorem validateOrdered_dedupKeyframes (hne : keys ≠ [])
    (hbound : ∀ key ∈ keys, key.at_.toInt.natAbs ≤ maxKeyFrameOffset) : (dedupKeyframes keys).validateOrdered = .ok () := by
  refine AutomationCurve.validateOrdered_eq_ok.mpr ⟨?_, fun key hkey => hbound key (mem_dedupKeyframes hkey), ?_⟩
  · have hlast := mem_dedupKeyframes_concat keys.dropLast (keys.getLast hne)
    rw [dropLast_concat_getLast] at hlast
    exact ne_nil_of_mem hlast
  · exact ordered_foldl_insertKey isChain_nil keys

/-! ## The frames of a motion -/

section

variable (hlong : 1 < duration.toInt)

include hlong

theorem lastFrame_toInt : (lastFrame duration).toInt = duration.toInt - 1 :=
  saturatingSub_eq 0 duration (by exact Int.le_of_lt (Int.sub_pos_of_lt hlong))
    (Int.sub_le_self _ (by decide))

/-- A caption has come in behind its first frame, and not behind its last one. -/
theorem entrance_toInt : 1 ≤ (entrance duration).toInt ∧ (entrance duration).toInt ≤ 6 ∧
    (entrance duration).toInt ≤ (lastFrame duration).toInt := by
  have hlast := lastFrame_toInt hlong
  have hone : (1 : TimeCode).toInt = 1 := rfl
  have hsix : (6 : TimeCode).toInt = 6 := rfl
  rw [entrance, toInt_min, toInt_min, toInt_max]
  omega

theorem exit_toInt : 0 ≤ (exit duration).toInt ∧ (exit duration).toInt ≤ (lastFrame duration).toInt := by
  obtain ⟨hpos, -, hle⟩ := entrance_toInt hlong
  have hexit : (exit duration).toInt = (lastFrame duration).toInt - (entrance duration).toInt :=
    saturatingSub_eq 0 (lastFrame duration) (by rw [Int64.toInt_zero]; omega) (by omega)
  omega

/-- A caption is largest before it has come in, or on the frame on which it has. -/
theorem overshoot_toInt : 0 ≤ (max (entrance duration / 2) 1).toInt ∧
    (max (entrance duration / 2) 1).toInt ≤ (lastFrame duration).toInt := by
  obtain ⟨hpos, hsix, hle⟩ := entrance_toInt hlong
  have hone : (1 : TimeCode).toInt = 1 := rfl
  have hhalf : (entrance duration / 2).toInt = (entrance duration).toInt / 2 := by
    have hdiv : (entrance duration).toInt.tdiv (2 : TimeCode).toInt = (entrance duration).toInt / 2 :=
      Int.tdiv_eq_ediv_of_nonneg (by omega)
    rw [Int64.toInt_div, hdiv]
    exact Int.bmod_eq_of_le (by omega) (by omega)
  rw [toInt_max]
  omega

/-- Every key of the opacity is on a frame of the caption. -/
theorem opacityKeys_at (h : key ∈ opacityKeys duration) :
    0 ≤ key.at_.toInt ∧ key.at_.toInt ≤ (lastFrame duration).toInt := by
  have hlast := lastFrame_toInt hlong
  have hentrance := entrance_toInt hlong
  have hexit := exit_toInt hlong
  have hzero : (0 : TimeCode).toInt = 0 := rfl
  simp only [opacityKeys, mem_cons, not_mem_nil, or_false] at h
  rcases h with rfl | rfl | rfl | rfl <;> simp only [keyframe] <;> omega

end

variable {parameter : String}

theorem transformKeys_at (hlong : 1 < duration.toInt)
    (hkeys : transformKeys duration motion = some (parameter, keys)) (h : key ∈ keys) :
    0 ≤ key.at_.toInt ∧ key.at_.toInt ≤ (lastFrame duration).toInt := by
  have hentrance := entrance_toInt hlong
  have hover := overshoot_toInt hlong
  have hzero : (0 : TimeCode).toInt = 0 := rfl
  cases motion with
  | none => cases hkeys
  | fade => cases hkeys
  | pop =>
    obtain ⟨rfl, rfl⟩ := Prod.mk.inj (Option.some.inj hkeys)
    simp only [mem_cons, not_mem_nil, or_false] at h
    rcases h with rfl | rfl | rfl <;> simp only [keyframe] <;> omega
  | slideUp =>
    obtain ⟨rfl, rfl⟩ := Prod.mk.inj (Option.some.inj hkeys)
    simp only [mem_cons, not_mem_nil, or_false] at h
    rcases h with rfl | rfl <;> simp only [keyframe] <;> omega

/-! ## The effects of a motion -/

/-- An effect with one curve, that neither grades nor is heard, is accepted exactly if the curve is in order. -/
theorem visualFits_keyed {effect : Effect} {descriptor : EffectDescriptor} {curve : AutomationCurve}
    (hdescriptor : effectDescriptor effect.name = some descriptor) (hvisual : isAudioEffect effect.name = false)
    (hcolor : ColorNodeKind.fromEffectName effect.name = none)
    (hname : ["cube_lut", "chroma_key"].contains effect.name = false)
    (hparameters : ∀ name value, effect.parameters.get? name = some value →
      validateDescribedEffectParameter descriptor name value = .ok ())
    (hkeyframes : effect.keyframes = KeyedMap.empty.insert parameter curve)
    (hknown : (descriptor.parameter parameter).isSome = true) (henabled : effect.enabledCurve = none)
    (hrange : ∀ key ∈ curve.keyframes, validateDescribedEffectParameter descriptor parameter (.integer key.value) = .ok ()) :
    VisualFits doc clip adjusts effect ↔ curve.validateOrdered = .ok () := by
  have hlut : effect.name ≠ "cube_lut" := fun heq => by
    rw [heq] at hname
    cases hname
  have hkeyer : effect.name ≠ "chroma_key" := fun heq => by
    rw [heq] at hname
    cases hname
  have hcurve (name : String) (other : AutomationCurve) :
      effect.keyframes.get? name = some other ↔ name = parameter ∧ curve = other := by
    rw [hkeyframes, KeyedMap.get?_insert]
    split
    · rename_i hsame
      rw [Option.some.injEq, and_iff_right hsame]
    · rename_i hne
      exact ⟨fun h => absurd h.symm (Option.some_ne_none other), fun h => absurd h.1 hne⟩
  constructor
  · intro h
    obtain ⟨descriptor', -, hcurves⟩ := h.automation.curves
    exact (hcurves parameter curve ((hcurve parameter curve).mpr ⟨rfl, rfl⟩)).2.ordered
  · intro hordered
    refine ⟨hvisual, fun _ => hkeyer, ?_, ?_, ?_, ⟨⟨descriptor, hdescriptor, fun name other hother => ?_⟩, ?_, ?_⟩⟩
    · rw [validateEffect, hdescriptor, okOr_some, ok_bind, then_eq_ok, then_eq_ok, refuse_eq_ok, all_eq_ok, all_eq_ok]
      refine ⟨fun h => hlut h.1, fun entry hentry => ?_, fun entry hentry => ?_⟩
      · rw [if_neg fun h => hlut h.1]
        exact hparameters entry.1 entry.2 (KeyedMap.mem_entries.mp hentry)
      · obtain ⟨hsame, -⟩ := (hcurve entry.1 entry.2).mp (KeyedMap.mem_entries.mp hentry)
        rw [refuse_eq_ok, hsame, Bool.not_eq_true, Option.isNone_eq_false_iff]
        exact hknown
    · rw [validateLutNodeReferences, isLutColorNode, hcolor]
      rfl
    · rw [validateColorCurvePoints, hcolor]
      rfl
    · obtain ⟨rfl, rfl⟩ := (hcurve name other).mp hother
      refine ⟨hknown, hordered, fun hhold => ?_, hrange⟩
      rw [isHoldOnlyParameter, name_of_effectDescriptor hdescriptor, hvisual, hcolor] at hhold
      cases hhold
    · rw [henabled]
      rintro _ ⟨⟩
    · rw [validateCurveKeyframePolicy, hcolor]
      rfl

/-- The opacity of a caption may be keyed exactly if its last frame is in bounds. -/
theorem visualFits_opacity (hlong : 1 < duration.toInt) :
    VisualFits doc clip adjusts (opacityEffect duration) ↔ duration.toInt ≤ maxKeyFrameOffset + 1 := by
  have hlast := lastFrame_toInt hlong
  have hordered : (dedupKeyframes (opacityKeys duration)).validateOrdered = .ok () ↔
      duration.toInt ≤ maxKeyFrameOffset + 1 := by
    constructor
    · intro h
      have hkeys : opacityKeys duration = [keyframe 0 0 .easeOut, keyframe (entrance duration) 100 .hold,
          keyframe (exit duration) 100 .easeIn] ++ [keyframe (lastFrame duration) 0 .linear] := rfl
      have hbound : (lastFrame duration).toInt.natAbs ≤ maxKeyFrameOffset :=
        (AutomationCurve.validateOrdered_eq_ok.mp h).2.1 (keyframe (lastFrame duration) 0 .linear)
          (hkeys ▸ mem_dedupKeyframes_concat _ _)
      omega
    · intro hle
      refine validateOrdered_dedupKeyframes (cons_ne_nil _ _) fun key hkey => ?_
      obtain ⟨hnonneg, hat⟩ := opacityKeys_at hlong hkey
      omega
  have hrange : ∀ key ∈ (dedupKeyframes (opacityKeys duration)).keyframes, validateDescribedEffectParameter
      ⟨"opacity", [control "percent" 0 100 100]⟩ "percent" (.integer key.value) = .ok () := by
    intro key hkey
    have hmem := mem_dedupKeyframes hkey
    simp only [opacityKeys, mem_cons, not_mem_nil, or_false] at hmem
    rcases hmem with rfl | rfl | rfl | rfl <;> rfl
  rw [← hordered]
  exact visualFits_keyed rfl rfl rfl rfl (KeyedMap.forall_get?_insert rfl nofun) rfl rfl rfl hrange

/-- The transform of a caption may be keyed if its last frame is in bounds. -/
theorem visualFits_transform (hlong : 1 < duration.toInt) (hle : duration.toInt ≤ maxKeyFrameOffset + 1)
    (hkeys : transformKeys duration motion = some (parameter, keys)) :
    VisualFits doc clip adjusts (transformEffect parameter keys) := by
  have hlast := lastFrame_toInt hlong
  have hsome : (effectDescriptor "transform").isSome = true := rfl
  have hordered : keys ≠ [] → (dedupKeyframes keys).validateOrdered = .ok () := fun hne =>
    validateOrdered_dedupKeyframes hne fun key hkey => by
      obtain ⟨hnonneg, hat⟩ := transformKeys_at hlong hkeys hkey
      omega
  have hparameters : ∀ name value, (transformEffect parameter keys).parameters.get? name = some value →
      validateDescribedEffectParameter ((effectDescriptor "transform").get hsome) name value = .ok () :=
    KeyedMap.forall_get?_insert rfl (KeyedMap.forall_get?_insert rfl (KeyedMap.forall_get?_insert rfl nofun))
  have hkeyed (hne : keys ≠ []) (hknown : (((effectDescriptor "transform").get hsome).parameter parameter).isSome = true)
      (hrange : ∀ key ∈ keys, validateDescribedEffectParameter ((effectDescriptor "transform").get hsome) parameter
        (.integer key.value) = .ok ()) : VisualFits doc clip adjusts (transformEffect parameter keys) :=
    (visualFits_keyed (Option.some_get hsome).symm rfl rfl rfl hparameters rfl hknown rfl
      fun key hkey => hrange key (mem_dedupKeyframes hkey)).mpr (hordered hne)
  cases motion with
  | none => cases hkeys
  | fade => cases hkeys
  | pop =>
    obtain ⟨rfl, rfl⟩ := Prod.mk.inj (Option.some.inj hkeys)
    refine hkeyed (cons_ne_nil _ _) rfl fun key hkey => ?_
    simp only [mem_cons, not_mem_nil, or_false] at hkey
    rcases hkey with rfl | rfl | rfl <;> rfl
  | slideUp =>
    obtain ⟨rfl, rfl⟩ := Prod.mk.inj (Option.some.inj hkeys)
    refine hkeyed (cons_ne_nil _ _) rfl fun key hkey => ?_
    simp only [mem_cons, not_mem_nil, or_false] at hkey
    rcases hkey with rfl | rfl <;> rfl

end Kinewright.Captions
