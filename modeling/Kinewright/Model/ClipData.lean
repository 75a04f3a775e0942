import Kinewright.Model.Mixes
import Kinewright.Model.Split

/-!
# The data of a clip that was edited

`survive_clip_edit` of `operation.rs`: what a clip carries follows its new origin and its new length. The curves of its
effects only move, so they are refused if a key gets out of bounds. The envelope of its gain is cut to the new length,
and its audio fades are clamped; these are never refused.
-/

namespace Kinewright.Model

open Fallible AutomationCurve
open List hiding all
open Option hiding filter_map forall_mem_map map_id map_map mem_map mem_map_of_mem
open Effect hiding id keyframes mk

variable {doc : Document} {track : Track} {clip edited : Clip} {curve : AutomationCurve} {delta duration duration' stop : TimeCode}
  {keys : List Keyframe} {key : Keyframe} {effect : Effect}

/-! ## Moved curves -/

theorem AutomationCurve.validateOrdered_eq_ok : curve.validateOrdered = .ok () ↔ curve.keyframes ≠ [] ∧
    (∀ key ∈ curve.keyframes, key.at_.toInt.natAbs ≤ maxKeyFrameOffset) ∧ Ordered curve.keyframes := by
  rw [validateOrdered, unless_eq_ok, unless_eq_ok, unless_eq_ok, not_not, not_exists]
  simp only [not_and, Nat.not_lt, and_true]
  rfl

/-- Moved by the distance, the keys of the curve stay in bounds. -/
def KeysWithin (delta : TimeCode) (curve : AutomationCurve) : Prop :=
  ∀ key ∈ curve.keyframes, (key.at_.toInt - delta.toInt).natAbs ≤ maxKeyFrameOffset

/-- A difference that is in bounds is not saturated. -/
theorem saturatingSub_of_natAbs {a b : Int64} (h : (a.toInt - b.toInt).natAbs ≤ maxKeyFrameOffset) :
    (saturatingSub a b).toInt = a.toInt - b.toInt := by
  have hbound : maxKeyFrameOffset = 1099511627776 := rfl
  refine Int64.toInt_ofIntClamp ?_ ?_
  · rw [Int64.toInt_minValue]
    omega
  · rw [Int64.toInt_maxValue]
    omega

/-- A curve is valid after it was moved, exactly if its keys stay in bounds. -/
theorem validateOrdered_moved (h : curve.validateOrdered = .ok ()) :
    (rebaseClipCurveKeepOutside curve delta).validateOrdered = .ok () ↔ KeysWithin delta curve := by
  obtain ⟨hne, -, hordered⟩ := validateOrdered_eq_ok.mp h
  rw [validateOrdered_eq_ok, rebaseClipCurveKeepOutside, forall_mem_map]
  constructor
  · rintro ⟨-, hbound, -⟩ key hkey
    have hkept := hbound key hkey
    rw [← saturatingSub_toInt hkept]
    exact hkept
  · intro hwithin
    have hmoved (key : Keyframe) (hkey : key ∈ curve.keyframes) :
        (saturatingSub key.at_ delta).toInt = key.at_.toInt - delta.toInt :=
      saturatingSub_of_natAbs (hwithin key hkey)
    refine ⟨by simpa using hne, fun key hkey => ?_, (isChain_map _).mpr ?_⟩
    · rw [hmoved key hkey]
      exact hwithin key hkey
    · refine IsChain.imp_of_mem_imp (fun key next hkey hnext hlt => ?_) hordered
      rw [Int64.lt_iff_toInt_lt] at hlt
      rw [Int64.lt_iff_toInt_lt, hmoved key hkey, hmoved next hnext]
      omega

variable {back : TimeCode}

/-- A curve that was moved in bounds is moved back to what it was. -/
theorem rebase_rebase (hwithin : KeysWithin delta curve) (hback : back.toInt = -delta.toInt) :
    rebaseClipCurveKeepOutside (rebaseClipCurveKeepOutside curve delta) back = curve := by
  have hkey : ∀ key ∈ curve.keyframes,
      { key with at_ := saturatingSub (saturatingSub key.at_ delta) back } = key := by
    intro key hkey
    have hmoved := saturatingSub_of_natAbs (hwithin key hkey)
    have hsame : saturatingSub (saturatingSub key.at_ delta) back = key.at_ := by
      rw [← Int64.toInt_inj, saturatingSub_eq key.at_ key.at_ (by omega) (by omega)]
      omega
    rw [hsame]
  have hkeys : (curve.keyframes.map fun key => { key with at_ := saturatingSub key.at_ delta }).map
      (fun key : Keyframe => { key with at_ := saturatingSub key.at_ back }) = curve.keyframes := by
    rw [map_map]
    exact (map_congr_left hkey).trans (map_id _)
  exact congrArg mk hkeys

/-! ## Moved effects -/

/-- The effect with its curves moved. -/
def Effect.moved (delta : TimeCode) (effect : Effect) : Effect :=
  { effect with
    keyframes := effect.keyframes.map fun _ curve => rebaseClipCurveKeepOutside curve delta
    enabledCurve := effect.enabledCurve.map (rebaseClipCurveKeepOutside · delta) }

@[simp] theorem Effect.moved_name (delta : TimeCode) (effect : Effect) : (effect.moved delta).name = effect.name := rfl

@[simp] theorem Effect.moved_parameters (delta : TimeCode) (effect : Effect) :
    (effect.moved delta).parameters = effect.parameters := rfl

/-- What is checked of a curve of an effect of a clip. -/
structure KeyedCurveFits (descriptor : EffectDescriptor) (name : String) (curve : AutomationCurve) : Prop where
  ordered : curve.validateOrdered = .ok ()
  hold : isHoldOnlyParameter descriptor.name name = true → ∀ key ∈ curve.keyframes, key.interpolation = .hold
  range : ∀ key ∈ curve.keyframes, validateDescribedEffectParameter descriptor name (.integer key.value) = .ok ()

/-- What is checked of the automation of an effect of a clip. -/
structure AutomationFits (effect : Effect) : Prop where
  curves : ∃ descriptor, effectDescriptor effect.name = some descriptor ∧ ∀ name curve,
    effect.keyframes.get? name = some curve → (descriptor.parameter name).isSome = true ∧
      KeyedCurveFits descriptor name curve
  enabled : ∀ curve ∈ effect.enabledCurve, validateEnabledCurve effect.name curve = .ok ()
  policy : validateCurveKeyframePolicy effect.name effect.keyframes = .ok ()

variable {name : String}

theorem validateCurve_eq_ok {clip : ClipId} {effectId : EffectId} {descriptor : EffectDescriptor}
    (hvisual : isAudioEffect descriptor.name = false) :
    validateCurve clip duration effectId descriptor name curve = .ok () ↔ KeyedCurveFits descriptor name curve := by
  simp only [validateCurve, hvisual, Bool.false_eq_true, if_false, false_and, then_eq_ok, mapError_eq_ok, all_eq_ok,
    refuse_eq_ok, not_false_eq_true, true_and, not_and, not_exists, not_not]
  exact ⟨fun ⟨hordered, hhold, hrange⟩ => ⟨hordered, hhold, hrange⟩, fun h => ⟨h.ordered, h.hold, h.range⟩⟩

theorem validateEffectAutomation_eq_ok {clip : ClipId} (hvisual : isAudioEffect effect.name = false) :
    validateEffectAutomation clip duration effect = .ok () ↔ AutomationFits effect := by
  have henabled : effect.validateEnabled = .ok () ↔
      ∀ curve ∈ effect.enabledCurve, validateEnabledCurve effect.name curve = .ok () := by
    rw [Effect.validateEnabled]
    cases effect.enabledCurve with
    | none => exact ⟨by rintro - _ ⟨⟩, fun _ => rfl⟩
    | some curve => exact ⟨fun h _ hcurve => Option.some.inj hcurve ▸ h, fun h => h curve rfl⟩
  simp only [validateEffectAutomation, bind_eq_ok, okOr_eq_ok]
  constructor
  · rintro ⟨descriptor, hdescriptor, ⟨⟩, hcurves, ⟨⟩, henable, hpolicy⟩
    have hname := name_of_effectDescriptor hdescriptor
    rw [all_eq_ok] at hcurves
    refine ⟨⟨descriptor, hdescriptor, fun name curve hcurve => ?_⟩, henabled.mp henable, hpolicy⟩
    obtain ⟨hknown, hfits⟩ := then_eq_ok.mp (hcurves (name, curve) (KeyedMap.mem_entries.mpr hcurve))
    rw [refuse_eq_ok, Bool.not_eq_true, isNone_eq_false_iff] at hknown
    exact ⟨hknown, (validateCurve_eq_ok (hname ▸ hvisual)).mp hfits⟩
  · rintro ⟨⟨descriptor, hdescriptor, hcurves⟩, henable, hpolicy⟩
    have hname := name_of_effectDescriptor hdescriptor
    refine ⟨descriptor, hdescriptor, (), all_eq_ok.mpr ?_, (), henabled.mpr henable, hpolicy⟩
    rintro ⟨name, curve⟩ hentry
    obtain ⟨hknown, hfits⟩ := hcurves name curve (KeyedMap.mem_entries.mp hentry)
    refine then_eq_ok.mpr ⟨?_, (validateCurve_eq_ok (hname ▸ hvisual)).mpr hfits⟩
    rw [refuse_eq_ok, Bool.not_eq_true, isNone_eq_false_iff]
    exact hknown

/-- The keys of every curve of the effect stay in bounds. -/
structure Effect.Within (delta : TimeCode) (effect : Effect) : Prop where
  curves : ∀ name curve, effect.keyframes.get? name = some curve → KeysWithin delta curve
  enabled : ∀ curve ∈ effect.enabledCurve, KeysWithin delta curve

theorem validateEnabledCurve_eq_ok : validateEnabledCurve name curve = .ok () ↔
    curve.validateOrdered = .ok () ∧ ∀ key ∈ curve.keyframes, ¬ (key.value < 0 ∨ 1 < key.value) := by
  simp only [validateEnabledCurve, then_eq_ok, mapError_eq_ok, all_eq_ok, refuse_eq_ok]

theorem keyedCurveFits_moved {descriptor : EffectDescriptor} (h : KeyedCurveFits descriptor name curve) :
    KeyedCurveFits descriptor name (rebaseClipCurveKeepOutside curve delta) ↔ KeysWithin delta curve := by
  constructor
  · exact fun hmoved => (validateOrdered_moved h.ordered).mp hmoved.ordered
  · intro hwithin
    refine ⟨(validateOrdered_moved h.ordered).mpr hwithin, fun hhold => ?_, ?_⟩
    · rw [rebaseClipCurveKeepOutside, forall_mem_map]
      exact h.hold hhold
    · rw [rebaseClipCurveKeepOutside, forall_mem_map]
      exact h.range

theorem validateCurveKeyframePolicy_moved (name : String) (keyframes : KeyedMap String AutomationCurve) :
    validateCurveKeyframePolicy name (keyframes.map fun _ curve => rebaseClipCurveKeepOutside curve delta)
      = validateCurveKeyframePolicy name keyframes := by
  have hany (channel : String) (p : AutomationCurve → Bool)
      (hp : ∀ curve, p (rebaseClipCurveKeepOutside curve delta) = p curve) :
      ((keyframes.map fun _ curve => rebaseClipCurveKeepOutside curve delta).get? channel).any p
        = (keyframes.get? channel).any p := by
    rw [KeyedMap.get?_map]
    cases keyframes.get? channel with
    | none => rfl
    | some curve => exact hp curve
  have hlength (curve : AutomationCurve) :
      (rebaseClipCurveKeepOutside curve delta).keyframes.length = curve.keyframes.length := length_map _
  have hempty (curve : AutomationCurve) :
      (rebaseClipCurveKeepOutside curve delta).keyframes = [] ↔ curve.keyframes = [] := map_eq_nil_iff
  simp only [validateCurveKeyframePolicy, hany, hlength, hempty, implies_true, ne_eq]

/-- A moved effect is automated validly, exactly if the keys of its curves stay in bounds. -/
theorem automationFits_moved (h : AutomationFits effect) : AutomationFits (effect.moved delta) ↔ effect.Within delta := by
  obtain ⟨descriptor, hdescriptor, hcurves⟩ := h.curves
  constructor
  · rintro ⟨⟨descriptor', hdescriptor', hmoved⟩, henabled, -⟩
    refine ⟨fun name curve hcurve => ?_, fun curve hcurve => ?_⟩
    · obtain ⟨-, hfits⟩ := hmoved name (rebaseClipCurveKeepOutside curve delta)
        (by rw [moved, KeyedMap.get?_map, hcurve, map_some])
      exact (validateOrdered_moved (hcurves name curve hcurve).2.ordered).mp hfits.ordered
    · have hold := validateEnabledCurve_eq_ok.mp (h.enabled curve hcurve)
      have hnew := henabled (rebaseClipCurveKeepOutside curve delta) (map_eq_some_iff.mpr ⟨curve, hcurve, rfl⟩)
      exact (validateOrdered_moved hold.1).mp (validateEnabledCurve_eq_ok.mp hnew).1
  · intro hwithin
    refine ⟨⟨descriptor, hdescriptor, fun name curve hcurve => ?_⟩, fun curve hcurve => ?_, ?_⟩
    · obtain ⟨old, hold, rfl⟩ := map_eq_some_iff.mp hcurve
      obtain ⟨hknown, hfits⟩ := hcurves name old hold
      exact ⟨hknown, (keyedCurveFits_moved hfits).mpr (hwithin.curves name old hold)⟩
    · obtain ⟨old, hold, rfl⟩ := map_eq_some_iff.mp hcurve
      obtain ⟨hordered, hrange⟩ := validateEnabledCurve_eq_ok.mp (h.enabled old hold)
      refine validateEnabledCurve_eq_ok.mpr ⟨(validateOrdered_moved hordered).mpr (hwithin.enabled old hold), ?_⟩
      rw [rebaseClipCurveKeepOutside, forall_mem_map]
      exact hrange
    · exact (validateCurveKeyframePolicy_moved effect.name effect.keyframes).trans h.policy

/-- What is checked of an effect of a clip, which may adjust what is under it. -/
structure VisualFits (doc : Document) (clip : ClipId) (adjusts : Prop) (effect : Effect) : Prop where
  visual : isAudioEffect effect.name = false
  supported : adjusts → effect.name ≠ "chroma_key"
  valid : validateEffect effect = .ok ()
  luts : validateLutNodeReferences doc clip effect = .ok ()
  points : validateColorCurvePoints effect = .ok ()
  automation : AutomationFits effect

theorem validateClipEffect_eq_ok (before : List Effect) (effect : Effect) :
    validateClipEffect doc clip duration before effect = .ok () ↔
      (∀ previous ∈ before, effect.id ≠ previous.id) ∧ VisualFits doc clip.id (clip.content = .adjustment) effect := by
  have hfresh : effect.id ∉ before.map Effect.id ↔ ∀ previous ∈ before, effect.id ≠ previous.id := by
    rw [mem_map, not_exists]
    exact forall_congr' fun previous => by rw [not_and, ne_comm]
  rw [validateClipEffect, then_eq_ok, then_eq_ok, then_eq_ok, then_eq_ok, then_eq_ok, then_eq_ok, refuse_eq_ok,
    refuse_eq_ok, refuse_eq_ok, hfresh, Bool.not_eq_true, not_and]
  constructor
  · rintro ⟨hid, hvisual, hsupported, hvalid, hluts, hpoints, hautomation⟩
    exact ⟨hid, hvisual, hsupported, hvalid, hluts, hpoints, (validateEffectAutomation_eq_ok hvisual).mp hautomation⟩
  · rintro ⟨hid, h⟩
    exact ⟨hid, h.visual, h.supported, h.valid, h.luts, h.points,
      (validateEffectAutomation_eq_ok h.visual).mpr h.automation⟩

theorem validateLutNodeReferences_moved (h : validateLutNodeReferences doc clip.id effect = .ok ()) :
    validateLutNodeReferences doc clip.id (effect.moved delta) = .ok () := by
  rw [validateLutNodeReferences] at h ⊢
  by_cases hlut : isLutColorNode effect.name = false
  · exact if_pos hlut
  · rw [if_neg hlut, then_eq_ok, all_eq_ok] at h
    refine (if_neg hlut).trans (then_eq_ok.mpr ⟨h.1, all_eq_ok.mpr ?_⟩)
    rw [moved, KeyedMap.get?_map]
    cases hcurve : effect.keyframes.get? "lut_asset_id" with
    | none => exact forall_mem_nil _
    | some curve =>
      rw [hcurve] at h
      exact forall_mem_map.mpr h.2

variable {other : Effect}

/-- The points of the curves of a colour node are parameters. -/
theorem storedInteger_congr (h : other.parameters = effect.parameters) (name : String) (neutral : Int64) :
    storedInteger other name neutral = storedInteger effect name neutral := by
  rw [storedInteger, storedInteger, staticIntegerParameter, staticIntegerParameter, h]

theorem curvePointsViolation_congr (h : other.parameters = effect.parameters) (channel : String)
    (previousX : Option Int64) (indexes : List ℕ) :
    curvePointsViolation other channel previousX indexes = curvePointsViolation effect channel previousX indexes := by
  induction indexes generalizing previousX with
  | nil => rfl
  | cons index rest ih =>
    cases previousX with
    | none =>
      rw [curvePointsViolation, storedInteger_congr h]
      exact ih _
    | some previous =>
      rw [curvePointsViolation, curvePointsViolation, storedInteger_congr h, ih]

theorem validateColorCurvePoints_congr (hname : other.name = effect.name)
    (hparameters : other.parameters = effect.parameters) :
    validateColorCurvePoints other = validateColorCurvePoints effect := by
  have hviolation (channel : String) : curveOrderViolation other channel = curveOrderViolation effect channel := by
    rw [curveOrderViolation, curveOrderViolation, storedInteger_congr hparameters, curvePointsViolation_congr hparameters]
  rw [validateColorCurvePoints, validateColorCurvePoints, hname]
  simp [hviolation]

theorem visualFits_moved {adjusts : Prop} (h : VisualFits doc clip.id adjusts effect) :
    VisualFits doc clip.id adjusts (effect.moved delta) ↔ effect.Within delta := by
  constructor
  · exact fun hmoved => (automationFits_moved h.automation).mp hmoved.automation
  · intro hwithin
    have hname := moved_name delta effect
    have hparameters := moved_parameters delta effect
    have hvalid : validateEffect (effect.moved delta) = .ok () :=
      validateEffect_mapCurves h.valid hname hparameters rfl
    have hpoints : validateColorCurvePoints (effect.moved delta) = .ok () :=
      (validateColorCurvePoints_congr hname hparameters).trans h.points
    exact ⟨hname ▸ h.visual, fun hadjusts => hname ▸ h.supported hadjusts, hvalid, validateLutNodeReferences_moved h.luts,
      hpoints, (automationFits_moved h.automation).mpr hwithin⟩

/-- A curve that was moved may be moved back. -/
theorem keysWithin_back (h : curve.validateOrdered = .ok ()) (hwithin : KeysWithin delta curve)
    (hback : back.toInt = -delta.toInt) : KeysWithin back (rebaseClipCurveKeepOutside curve delta) := by
  obtain ⟨-, hbound, -⟩ := validateOrdered_eq_ok.mp h
  rw [KeysWithin, rebaseClipCurveKeepOutside, forall_mem_map]
  intro key hkey
  rw [saturatingSub_of_natAbs (hwithin key hkey)]
  have hkept := hbound key hkey
  omega

/-- An effect that was moved in bounds is moved back to what it was. -/
theorem Effect.Within.moved_back (h : effect.Within delta) (hback : back.toInt = -delta.toInt) :
    (effect.moved delta).moved back = effect := by
  have hkeyframes : ((effect.keyframes.map fun _ curve => rebaseClipCurveKeepOutside curve delta).map
      fun _ curve => rebaseClipCurveKeepOutside curve back) = effect.keyframes := by
    refine KeyedMap.ext_get? fun name => ?_
    rw [KeyedMap.get?_map, KeyedMap.get?_map]
    cases hcurve : effect.keyframes.get? name with
    | none => rfl
    | some curve => exact congrArg some (rebase_rebase (h.curves name curve hcurve) hback)
  have henabled : (effect.enabledCurve.map (rebaseClipCurveKeepOutside · delta)).map (rebaseClipCurveKeepOutside · back)
      = effect.enabledCurve := by
    cases hcurve : effect.enabledCurve with
    | none => rfl
    | some curve => exact congrArg some (rebase_rebase (h.enabled curve hcurve) hback)
  rw [moved, moved]
  rw [hkeyframes, henabled]

theorem keysWithin_zero (h : curve.validateOrdered = .ok ()) : KeysWithin 0 curve := by
  obtain ⟨-, hbound, -⟩ := validateOrdered_eq_ok.mp h
  intro key hkey
  rw [Int64.toInt_zero, Int.sub_zero]
  exact hbound key hkey

/-- An effect that stays in its place is in bounds. -/
theorem AutomationFits.within_zero (h : AutomationFits effect) : effect.Within 0 := by
  obtain ⟨descriptor, -, hcurves⟩ := h.curves
  refine ⟨fun name curve hcurve => keysWithin_zero (hcurves name curve hcurve).2.ordered, fun curve hcurve => ?_⟩
  exact keysWithin_zero (validateEnabledCurve_eq_ok.mp (h.enabled curve hcurve)).1

theorem AutomationFits.within_back (h : AutomationFits effect) (hwithin : effect.Within delta)
    (hback : back.toInt = -delta.toInt) : (effect.moved delta).Within back := by
  obtain ⟨descriptor, -, hcurves⟩ := h.curves
  refine ⟨fun name curve hcurve => ?_, fun curve hcurve => ?_⟩
  · obtain ⟨old, hold, rfl⟩ := map_eq_some_iff.mp hcurve
    exact keysWithin_back (hcurves name old hold).2.ordered (hwithin.curves name old hold) hback
  · obtain ⟨old, hold, rfl⟩ := map_eq_some_iff.mp hcurve
    exact keysWithin_back (validateEnabledCurve_eq_ok.mp (h.enabled old hold)).1 (hwithin.enabled old hold) hback

/-! ## The envelope of the gain -/

theorem mem_insertKey {other : Keyframe} (h : other ∈ insertKey key keys) : other = key ∨ other ∈ keys := by
  induction keys with
  | nil => exact .inl (mem_singleton.mp h)
  | cons next keys ih =>
    rw [insertKey] at h
    split at h
    · exact mem_cons.mp h
    · split at h
      · exact (mem_cons.mp h).imp_right (mem_cons_of_mem next)
      · rcases mem_cons.mp h with rfl | h
        · exact .inr mem_cons_self
        · exact (ih h).imp_right (mem_cons_of_mem next)

theorem ordered_insertKey (h : Ordered keys) (key : Keyframe) : Ordered (insertKey key keys) := by
  refine isChain_iff_pairwise.mpr ?_
  induction keys with
  | nil => exact pairwise_singleton _ _
  | cons next keys ih =>
    obtain ⟨hnext, hrest⟩ := pairwise_cons.mp h.pairwise
    rw [insertKey]
    split
    · rename_i hlt
      refine pairwise_cons.mpr ⟨fun other hother => ?_, h.pairwise⟩
      rcases mem_cons.mp hother with rfl | hother
      · exact hlt
      · exact Int64.lt_trans hlt (hnext other hother)
    · rename_i hle
      split
      · rename_i hsame
        exact pairwise_cons.mpr ⟨fun other hother => hsame ▸ hnext other hother, hrest⟩
      · rename_i hne
        refine pairwise_cons.mpr ⟨fun other hother => ?_, ih h.tail⟩
        rcases mem_insertKey hother with rfl | hother
        · exact Int64.lt_of_le_of_ne (Int64.not_lt.mp hle) (Ne.symm hne)
        · exact hnext other hother

/-- What is checked of the envelope of the gain of a clip. -/
structure EnvelopeFits (duration : TimeCode) (curve : AutomationCurve) : Prop where
  valid : ValidKeys curve.keyframes
  range : ∀ key ∈ curve.keyframes, -600 ≤ key.value ∧ key.value ≤ 120
  inside : ∀ key ∈ curve.keyframes, key.at_ < duration

theorem validateClipGainCurve_eq_ok {clip : ClipId} :
    validateClipGainCurve clip curve duration = .ok () ↔ EnvelopeFits duration curve := by
  simp only [validateClipGainCurve, then_eq_ok, mapError_eq_ok, validate_eq_ok, all_eq_ok, refuse_eq_ok,
    not_or, Int64.not_lt, Int64.not_le]
  constructor
  · rintro ⟨hvalid, h⟩
    exact ⟨hvalid, fun key hkey => (h key hkey).1, fun key hkey => (h key hkey).2⟩
  · intro h
    exact ⟨h.valid, fun key hkey => ⟨h.range key hkey, h.inside key hkey⟩⟩

/-- A key of the new envelope: in the new length, and with a value that the old one has. -/
structure EnvelopeKey (curve : AutomationCurve) (duration : TimeCode) (key : Keyframe) : Prop where
  nonneg : 0 ≤ key.at_.toInt
  inside : key.at_ < duration
  value : ∃ source, curve.valueAt source = some key.value

theorem tame_of_range (h : ∀ key ∈ keys, -600 ≤ key.value ∧ key.value ≤ 120) : Tame keys := by
  intro key hkey
  obtain ⟨hlow, hhigh⟩ := h key hkey
  rw [Int64.le_iff_toInt_le] at hlow hhigh
  have hlow' : (-600 : Int64).toInt = -600 := by decide
  have hhigh' : (120 : Int64).toInt = 120 := by decide
  rw [provenValueBound]
  omega

theorem EnvelopeFits.tame (h : EnvelopeFits duration curve) : Tame curve.keyframes := tame_of_range h.range

/-- Keys that are ordered, in the new length and valued as the old envelope make an envelope that fits. -/
theorem EnvelopeFits.of_keys (h : EnvelopeFits duration curve) (hne : keys ≠ []) (hordered : Ordered keys)
    (hkeys : ∀ key ∈ keys, EnvelopeKey curve duration' key) : EnvelopeFits duration' { keyframes := keys } := by
  refine ⟨⟨hne, fun key hkey => (hkeys key hkey).nonneg, hordered⟩, fun key hkey => ?_, fun key hkey =>
    (hkeys key hkey).inside⟩
  obtain ⟨source, hsource⟩ := (hkeys key hkey).value
  obtain ⟨value, hvalue, hrange⟩ := valueAtKeys_total h.valid h.tame source
  obtain rfl := Option.some.inj (hvalue.symm.trans hsource)
  exact hrange _ _ h.range

/-- A difference that was cut off is out of the new length. -/
theorem saturatingSub_of_inside {a b : Int64} (hnonneg : 0 ≤ (saturatingSub a b).toInt)
    (hlt : (saturatingSub a b).toInt < duration.toInt) : (saturatingSub a b).toInt = a.toInt - b.toInt := by
  have hmax := duration.toInt_le
  rw [saturatingSub] at hnonneg hlt ⊢
  rcases lt_or_ge (a.toInt - b.toInt) Int64.minValue.toInt with hlow | hlow
  · rw [Int64.ofIntClamp, dif_neg (Int.not_le.mpr hlow)] at hnonneg
    exact absurd hnonneg (by decide)
  · rcases lt_or_ge Int64.maxValue.toInt (a.toInt - b.toInt) with hhigh | hhigh
    · rw [Int64.ofIntClamp, dif_pos hlow, dif_neg (Int.not_le.mpr hhigh)] at hlt
      omega
    · exact Int64.toInt_ofIntClamp hlow hhigh

/-- The moved keys that are in the new length. -/
def keysInside (curve : AutomationCurve) (delta duration : TimeCode) : List Keyframe :=
  (curve.keyframes.map fun key => { key with at_ := saturatingSub key.at_ delta }).filter
    fun key => 0 ≤ key.at_.toInt ∧ key.at_ < duration

theorem mem_keysInside (hkey : key ∈ keysInside curve delta duration) : ∃ old ∈ curve.keyframes,
    key = { old with at_ := saturatingSub old.at_ delta } ∧ 0 ≤ key.at_.toInt ∧ key.at_ < duration ∧
      key.at_.toInt = old.at_.toInt - delta.toInt := by
  obtain ⟨hmem, hinside⟩ := mem_filter.mp hkey
  obtain ⟨old, hold, rfl⟩ := mem_map.mp hmem
  obtain ⟨hnonneg, hlt⟩ := of_decide_eq_true hinside
  exact ⟨old, hold, rfl, hnonneg, hlt, saturatingSub_of_inside hnonneg (Int64.lt_iff_toInt_lt.mp hlt)⟩

/-- They are still in order, for none of them was cut off. -/
theorem ordered_keysInside (h : Ordered curve.keyframes) : Ordered (keysInside curve delta duration) := by
  have hpairs := Pairwise.filter
    (fun key : Keyframe => decide (0 ≤ (saturatingSub key.at_ delta).toInt ∧ saturatingSub key.at_ delta < duration))
    h.pairwise
  rw [keysInside, filter_map]
  refine isChain_iff_pairwise.mpr (pairwise_map.mpr ?_)
  refine Pairwise.imp_of_mem (fun {key next} hkey hnext hlt => ?_) hpairs
  obtain ⟨hnonneg, hbefore⟩ := of_decide_eq_true (mem_filter.mp hkey).2
  obtain ⟨hnonneg', hbefore'⟩ := of_decide_eq_true (mem_filter.mp hnext).2
  have hmoved := saturatingSub_of_inside hnonneg (Int64.lt_iff_toInt_lt.mp hbefore)
  have hmoved' := saturatingSub_of_inside hnonneg' (Int64.lt_iff_toInt_lt.mp hbefore')
  rw [Int64.lt_iff_toInt_lt] at hlt
  rw [Int64.lt_iff_toInt_lt, hmoved, hmoved']
  omega

theorem rebaseClipCurve_eq (h : Ordered curve.keyframes) (hne : curve.keyframes ≠ []) (hpos : 0 < duration'.toInt) :
    rebaseClipCurve curve delta duration' =
      let keys := if (curve.keyframes.any fun key => key.at_ < delta) = true then
          insertKey (boundaryKey curve 0 delta) (keysInside curve delta duration')
        else keysInside curve delta duration'
      let keys :=
        if (curve.keyframes.any fun key => duration'.toInt ≤ key.at_.toInt - delta.toInt) = true then
          insertKey (boundaryKey curve (saturatingSub duration' 1) (saturatingSub (saturatingAdd delta duration') 1)) keys
        else keys
      if keys = [] then { keyframes := [boundaryKey curve 0 delta] } else { keyframes := keys } := by
  have hinside : (keysInside curve delta duration').foldl (fun keys key => insertKey key keys) []
      = [] ++ keysInside curve delta duration' := foldl_insertKey (by exact ordered_keysInside h)
  rw [keysInside] at hinside
  rw [rebaseClipCurve, if_neg hne, if_neg (by omega)]
  dsimp only
  rw [hinside]
  rfl

/-- The envelope of a clip that got another origin and another length fits again. -/
theorem rebaseClipCurve_fits (h : EnvelopeFits duration curve) (delta : TimeCode) (hpos : 0 < duration'.toInt) :
    EnvelopeFits duration' (rebaseClipCurve curve delta duration') := by
  have hlast : (saturatingSub duration' 1).toInt = duration'.toInt - 1 :=
    saturatingSub_eq 0 duration' (Int.le_sub_one_of_lt hpos) (Int.sub_le_self _ (by decide))
  have hboundary (at_ source : TimeCode) (hnonneg : 0 ≤ at_.toInt) (hlt : at_.toInt < duration'.toInt) :
      EnvelopeKey curve duration' (boundaryKey curve at_ source) :=
    ⟨hnonneg, Int64.lt_iff_toInt_lt.mpr hlt, source, boundaryKey_value h.valid h.tame at_ source⟩
  have hfirst : EnvelopeKey curve duration' (boundaryKey curve 0 delta) := hboundary 0 delta (Int.le_refl 0) hpos
  have hinside : ∀ key ∈ keysInside curve delta duration', EnvelopeKey curve duration' key := by
    intro key hkey
    obtain ⟨old, hold, rfl, hnonneg, hlt, -⟩ := mem_keysInside hkey
    exact ⟨hnonneg, hlt, old.at_, valueAtKeys_key h.valid h.tame hold⟩
  -- a good key that may be inserted leaves good keys in order
  have hinsert (inserted : Prop) [Decidable inserted] {bound : Keyframe} (hbound : EnvelopeKey curve duration' bound)
      {keys : List Keyframe} (hkeys : Ordered keys ∧ ∀ key ∈ keys, EnvelopeKey curve duration' key) :
      Ordered (if inserted then insertKey bound keys else keys) ∧
        ∀ key ∈ if inserted then insertKey bound keys else keys, EnvelopeKey curve duration' key := by
    split
    · refine ⟨ordered_insertKey hkeys.1 bound, fun key hkey => ?_⟩
      rcases mem_insertKey hkey with heq | hkey
      · exact heq ▸ hbound
      · exact hkeys.2 key hkey
    · exact hkeys
  obtain ⟨keys, hkeys, heq⟩ : ∃ keys, (Ordered keys ∧ ∀ key ∈ keys, EnvelopeKey curve duration' key) ∧
      rebaseClipCurve curve delta duration'
        = if keys = [] then { keyframes := [boundaryKey curve 0 delta] } else { keyframes := keys } :=
    ⟨_, hinsert _ (hboundary (saturatingSub duration' 1) _ (by omega) (by omega))
      (hinsert _ hfirst ⟨ordered_keysInside h.valid.ordered, hinside⟩),
      rebaseClipCurve_eq h.valid.ordered h.valid.ne_nil hpos⟩
  rw [heq]
  split
  · exact h.of_keys (cons_ne_nil _ _) (isChain_singleton _) fun key hkey =>
      mem_singleton.mp hkey ▸ hfirst
  · rename_i hne
    exact h.of_keys hne hkeys.1 hkeys.2

/-! ## The data of a clip -/

/-- What is checked of a clip beside its place. -/
structure DataFits (doc : Document) (clip : Clip) : Prop where
  distinct : clip.effects.Pairwise fun previous effect => effect.id ≠ previous.id
  each : ∀ effect ∈ clip.effects, VisualFits doc clip.id (clip.content = .adjustment) effect
  managed : ¬ 16 < managedColorNodeCount clip.effects
  luts : ¬ 4 < lutNodeCount clip.effects
  stages : checkStageOrder clip.id (colorNodes clip.effects) = .ok ()
  transition : ∀ transition ∈ clip.transitionIn, validateTransition doc clip transition = .ok ()
  audio : validateClipAudio doc clip = .ok ()

theorem validateClipData_eq_ok : validateClipData doc clip duration = .ok () ↔ DataFits doc clip := by
  rw [validateClipData, then_eq_ok, then_eq_ok, then_eq_ok, then_eq_ok, then_eq_ok,
    allAfter_pairwise validateClipEffect_eq_ok, refuse_eq_ok, refuse_eq_ok, all_eq_ok]
  simp only [mem_toList]
  constructor
  · rintro ⟨⟨-, hdistinct, heach⟩, hmanaged, hluts, hstages, htransition, haudio⟩
    exact ⟨hdistinct, heach, hmanaged, hluts, hstages, htransition, haudio⟩
  · intro h
    exact ⟨⟨forall_mem_nil _, h.distinct, h.each⟩, h.managed, h.luts, h.stages, h.transition, h.audio⟩

/-- What is checked of a transition beside its duration. -/
structure TransitionFits (clip : Clip) (transition : Transition) : Prop where
  known : ∃ descriptor, transitionDescriptors.find? (fun descriptor => descriptor.1 = transition.name) = some descriptor ∧
    ¬ (clip.content = .adjustment ∧ descriptor.2 = true)
  pos : ¬ transition.duration ≤ 0

theorem validateTransition_eq_ok {transition : Transition} (hduration : doc.clipDuration clip = .ok duration) :
    validateTransition doc clip transition = .ok () ↔
      TransitionFits clip transition ∧ transition.duration ≤ duration := by
  simp only [validateTransition, bind_eq_ok, okOr_eq_ok, refuse_eq_ok, hduration, Int64.not_lt]
  constructor
  · rintro ⟨descriptor, hdescriptor, ⟨⟩, hsupported, ⟨⟩, hpos, _, hsame, hle⟩
    obtain rfl := Except.ok.inj hsame
    exact ⟨⟨⟨descriptor, hdescriptor, hsupported⟩, hpos⟩, hle⟩
  · rintro ⟨⟨⟨descriptor, hdescriptor, hsupported⟩, hpos⟩, hle⟩
    exact ⟨descriptor, hdescriptor, (), hsupported, (), hpos, duration, rfl, hle⟩

/-- What is checked of the sound of a clip. -/
structure AudioFits (clip : Clip) (duration : TimeCode) : Prop where
  silent : ¬ (clip.content.isMedia = false ∧ clip.hasAudio = true)
  envelope : ∀ curve ∈ clip.audioGainCurve, EnvelopeFits duration curve
  gain : ¬ (clip.audioGainTenthDb < -600 ∨ 120 < clip.audioGainTenthDb)
  fadeIn : 0 ≤ clip.audioFadeInFrames.toInt
  fadeOut : 0 ≤ clip.audioFadeOutFrames.toInt
  fades : clip.audioFadeInFrames.toInt + clip.audioFadeOutFrames.toInt ≤ duration.toInt

theorem validateClipAudio_eq_ok (hduration : doc.clipDuration clip = .ok duration) :
    validateClipAudio doc clip = .ok () ↔ AudioFits clip duration := by
  have hzero : (0 : TimeCode).toInt = 0 := rfl
  have hcurves : all (validateClipGainCurve clip.id · duration) clip.audioGainCurve.toList = .ok () ↔
      ∀ curve ∈ clip.audioGainCurve, EnvelopeFits duration curve := by
    simp [all_eq_ok, validateClipGainCurve_eq_ok]
  simp only [validateClipAudio, validateClipAudioValues, bind_eq_ok, okOr_eq_ok, refuse_eq_ok, hduration,
    checkedAdd_eq_some, Int64.not_lt]
  constructor
  · rintro ⟨⟨⟩, hsilent, _, hsame, ⟨⟩, henvelope, ⟨⟩, hgain, ⟨⟩, hin, ⟨⟩, hout, total, htotal, hfades⟩
    obtain rfl := Except.ok.inj hsame
    rw [Int64.le_iff_toInt_le] at hin hout hfades
    exact ⟨hsilent, hcurves.mp henvelope, hgain, by omega, by omega, by omega⟩
  · intro h
    have hin := h.fadeIn
    have hout := h.fadeOut
    have hfades := h.fades
    have hmax := duration.toInt_lt
    obtain ⟨total, -, htotal⟩ := exists_tryFrom_of_lt
      (n := clip.audioFadeInFrames.toInt + clip.audioFadeOutFrames.toInt) (by omega) (by omega)
    refine ⟨(), h.silent, duration, rfl, (), hcurves.mpr h.envelope, (), h.gain, (), ?_, (), ?_, total, htotal, ?_⟩
    all_goals exact Int64.le_iff_toInt_le.mpr (by omega)

/-- A sum that is a frame count is not cut off. -/
theorem saturatingAdd_of_lt {a b : Int64} (hlow : 0 ≤ a.toInt + b.toInt) (hhigh : a.toInt + b.toInt < 2 ^ 63) :
    (saturatingAdd a b).toInt = a.toInt + b.toInt := by
  refine Int64.toInt_ofIntClamp ?_ ?_
  · rw [Int64.toInt_minValue]
    omega
  · rw [Int64.toInt_maxValue]
    omega

/-- Fades of the length: none is negative, and together they are no longer. -/
structure FadesFit (fades : TimeCode × TimeCode) (duration : TimeCode) : Prop where
  fadeIn : 0 ≤ fades.1.toInt
  fadeOut : 0 ≤ fades.2.toInt
  total : fades.1.toInt + fades.2.toInt ≤ duration.toInt

/-- The fades that are left fit, and are no longer than they were. -/
theorem clampFades_fits (fadeIn fadeOut : TimeCode) (hin : 0 ≤ fadeIn.toInt) (hinLe : fadeIn.toInt ≤ duration.toInt)
    (hout : 0 ≤ fadeOut.toInt) (htotal : fadeIn.toInt + fadeOut.toInt < 2 ^ 63) :
    FadesFit (clampFades fadeIn fadeOut duration) duration ∧
      (clampFades fadeIn fadeOut duration).1.toInt ≤ fadeIn.toInt ∧
        (clampFades fadeIn fadeOut duration).2.toInt ≤ fadeOut.toInt := by
  have hmax := duration.toInt_lt
  have hsub := toInt_sub_of_nonneg (a := duration) (by omega) hin
  have hsum := saturatingAdd_of_lt (a := fadeIn) (b := fadeOut) (by omega) htotal
  have hrest := saturatingAdd_of_lt (a := fadeIn) (b := duration - fadeIn) (by omega) (by omega)
  rw [clampFades]
  by_cases hlong : duration < saturatingAdd fadeIn fadeOut
  · -- the fade out gets what the fade in leaves of the duration
    have hkept : ¬ duration < saturatingAdd fadeIn (duration - fadeIn) := by
      rw [Int64.lt_iff_toInt_lt]
      omega
    rw [if_pos hlong]
    rw [if_neg hkept]
    rw [Int64.lt_iff_toInt_lt] at hlong
    exact ⟨⟨hin, by dsimp only; omega, by dsimp only; omega⟩, Int.le_refl _, by dsimp only; omega⟩
  · rw [if_neg hlong]
    rw [Int64.lt_iff_toInt_lt] at hlong
    exact ⟨⟨hin, hout, by dsimp only; omega⟩, Int.le_refl _, Int.le_refl _⟩

theorem toInt_min (a b : Int64) : (min a b).toInt = min a.toInt b.toInt := by
  change (if a ≤ b then a else b).toInt = min a.toInt b.toInt
  split
  all_goals
    rename_i h
    rw [Int64.le_iff_toInt_le] at h
    omega

theorem toInt_max (a b : Int64) : (max a b).toInt = max a.toInt b.toInt := by
  change (if a ≤ b then b else a).toInt = max a.toInt b.toInt
  split
  all_goals
    rename_i h
    rw [Int64.le_iff_toInt_le] at h
    omega

/-- The fades of a clip that got another length fit, and are no longer than they were. -/
theorem clampClipAudioFades_fits (h : FadesFit (clip.audioFadeInFrames, clip.audioFadeOutFrames) duration)
    (hpos : 0 < duration'.toInt) :
    FadesFit ((clampClipAudioFades clip duration').audioFadeInFrames, (clampClipAudioFades clip duration').audioFadeOutFrames)
        duration' ∧
      (clampClipAudioFades clip duration').audioFadeInFrames.toInt ≤ clip.audioFadeInFrames.toInt ∧
        (clampClipAudioFades clip duration').audioFadeOutFrames.toInt ≤ clip.audioFadeOutFrames.toInt := by
  obtain ⟨hin, hout, hfades⟩ := h
  dsimp only at hin hout hfades
  have hzero : (0 : TimeCode).toInt = 0 := rfl
  have hmax := duration.toInt_lt
  have hlength : max duration' 0 = duration' := by
    rw [← Int64.toInt_inj, toInt_max]
    omega
  have hfadeIn : (min (max clip.audioFadeInFrames 0) duration').toInt
      = min clip.audioFadeInFrames.toInt duration'.toInt := by
    rw [toInt_min, toInt_max]
    omega
  have hfadeOut : (min (max clip.audioFadeOutFrames 0) duration').toInt
      = min clip.audioFadeOutFrames.toInt duration'.toInt := by
    rw [toInt_min, toInt_max]
    omega
  have hwithin : (min (max clip.audioFadeInFrames 0) duration').toInt ≤ duration'.toInt := by omega
  obtain ⟨hfit, hinLe, houtLe⟩ := clampFades_fits _ (min (max clip.audioFadeOutFrames 0) duration') (by omega) hwithin
    (by omega) (by omega)
  rw [clampClipAudioFades, hlength]
  exact ⟨hfit, hinLe.trans (by omega), houtLe.trans (by omega)⟩

theorem AudioFits.fadesFit (h : AudioFits clip duration) :
    FadesFit (clip.audioFadeInFrames, clip.audioFadeOutFrames) duration := ⟨h.fadeIn, h.fadeOut, h.fades⟩

/-- The clip that survives an edit of its place and its length. -/
def survivor (clip : Clip) (delta duration : TimeCode) : Clip :=
  clampClipAudioFades (rebaseClipAutomation clip delta duration) duration

section Survivor

variable (clip : Clip) (delta duration : TimeCode)

@[simp] theorem survivor_audioGainTenthDb : (survivor clip delta duration).audioGainTenthDb = clip.audioGainTenthDb := rfl

@[simp] theorem survivor_audioGainCurve :
    (survivor clip delta duration).audioGainCurve = clip.audioGainCurve.map (rebaseClipCurve · delta duration) := rfl

end Survivor

theorem hasAudio_eq_false : clip.hasAudio = false ↔ clip.audioGainTenthDb = 0 ∧ clip.audioFadeInFrames = 0 ∧
    clip.audioFadeOutFrames = 0 ∧ clip.audioGainCurve = none := by
  simp [Clip.hasAudio, and_assoc]

/-- The sound of a clip fits after every edit of its place and its length. -/
theorem audioFits_survivor (h : AudioFits clip duration) (hpos : 0 < duration'.toInt) :
    AudioFits (survivor clip delta duration') duration' := by
  have hfades : FadesFit ((rebaseClipAutomation clip delta duration').audioFadeInFrames,
      (rebaseClipAutomation clip delta duration').audioFadeOutFrames) duration := h.fadesFit
  have hclamped := clampClipAudioFades_fits hfades hpos
  obtain ⟨⟨hin, hout, htotal⟩, hinLe, houtLe⟩ := hclamped
  dsimp only at hin hout htotal
  have henvelope : ∀ curve ∈ (survivor clip delta duration').audioGainCurve, EnvelopeFits duration' curve := by
    intro curve hcurve
    obtain ⟨old, hold, rfl⟩ := map_eq_some_iff.mp hcurve
    exact rebaseClipCurve_fits (h.envelope old hold) delta hpos
  have hgain : ¬ ((survivor clip delta duration').audioGainTenthDb < -600 ∨
      120 < (survivor clip delta duration').audioGainTenthDb) := by
    exact h.gain
  have hsilent : ¬ ((survivor clip delta duration').content.isMedia = false ∧
      (survivor clip delta duration').hasAudio = true) := by
    rintro ⟨hspan, haudio⟩
    obtain ⟨hgain, hfadeIn, hfadeOut, hcurve⟩ := hasAudio_eq_false.mp (Bool.eq_false_iff.mpr fun hold => h.silent ⟨hspan, hold⟩)
    -- no fade is longer than it was
    have hinZero : (rebaseClipAutomation clip delta duration').audioFadeInFrames = 0 := hfadeIn
    have houtZero : (rebaseClipAutomation clip delta duration').audioFadeOutFrames = 0 := hfadeOut
    rw [hinZero] at hinLe
    rw [houtZero] at houtLe
    have hsilent : (survivor clip delta duration').hasAudio = false := by
      refine hasAudio_eq_false.mpr ⟨?_, Int64.toInt_inj.mp (Int.le_antisymm hinLe hin),
        Int64.toInt_inj.mp (Int.le_antisymm houtLe hout), ?_⟩
      · rw [survivor_audioGainTenthDb, hgain]
      · rw [survivor_audioGainCurve, hcurve, map_none]
    rw [hsilent] at haudio
    cases haudio
  exact ⟨hsilent, henvelope, hgain, hin, hout, htotal⟩

/-! ## The content of a clip -/

theorem validateTitleFade_eq_ok (hname : name = "fade_in_frames" ∨ name = "fade_out_frames")
    (fade : TimeCode) : validateTitleParameter name (.integer fade) = .ok () ↔ 0 ≤ fade.toInt := by
  rcases hname with rfl | rfl
  all_goals simp [validateTitleParameter, titleParameterDescriptors, Int64.le_iff_toInt_le]

/-- A title with other fades is valid, exactly if each of them is within the length. -/
theorem validateTitle_fades {id : ClipId} {title : Title} (h : validateTitle id title duration = .ok ())
    (fadeIn fadeOut : TimeCode) :
    validateTitle id { title with fadeInFrames := fadeIn, fadeOutFrames := fadeOut } duration' = .ok () ↔
      (0 ≤ fadeIn.toInt ∧ 0 ≤ fadeOut.toInt) ∧ fadeIn ≤ duration' ∧ fadeOut ≤ duration' := by
  have hin := validateTitleFade_eq_ok (.inl rfl) fadeIn
  have hout := validateTitleFade_eq_ok (.inr rfl) fadeOut
  have hlong : (∀ fade ∈ [("fade_in_frames", fadeIn), ("fade_out_frames", fadeOut)],
      refuse (duration' < fade.2) (OpError.titleFadeTooLong id fade.1 fade.2 duration') = .ok ()) ↔
        fadeIn ≤ duration' ∧ fadeOut ≤ duration' := by
    simp
  rw [validateTitle, then_eq_ok, then_eq_ok, all_eq_ok, all_eq_ok, all_eq_ok] at h ⊢
  obtain ⟨hparameters, hpreset, -⟩ := h
  rw [hlong]
  refine and_congr ?_ (and_iff_right hpreset)
  -- the other parameters are those of the title
  simp only [titleParameterDescriptors, forall_mem_cons, not_mem_nil, titleParameterValue] at hparameters ⊢
  simp_all

/-! ## Clips that survive an edit -/

/-- The clip in another place, over another range. -/
def Clip.placed (clip : Clip) (start : TimeCode) (source : FrameRange) (content : ClipContent) : Clip :=
  { clip with timelineStart := start, sourceRange := source, content }

/-- What an edit of the place and the range of a clip has to keep: a place in the project, a range of the content, the
transition within the length, and the keys of the automation in bounds. -/
structure Lasts (doc : Document) (track : Track) (edited : Clip) (delta duration : TimeCode) : Prop where
  start : 0 ≤ edited.timelineStart.toInt
  content : validateContent coreChecks doc track edited = .ok ()
  pos : 0 < duration.toInt
  stop : edited.timelineStart.toInt + duration.toInt < 2 ^ 63
  transition : ∀ transition ∈ edited.transitionIn, transition.duration ≤ duration
  effects : ∀ effect ∈ edited.effects, effect.Within delta
  enabled : ∀ curve ∈ edited.enabledCurve, KeysWithin delta curve

theorem surviveClipEdit_eq (hduration : doc.clipDuration edited = .ok duration) :
    doc.surviveClipEdit edited delta = .ok (survivor edited delta duration) := by
  rw [Document.surviveClipEdit, hduration]
  rfl

theorem clipDuration_survivor (doc : Document) (clip : Clip) (delta duration : TimeCode) :
    doc.clipDuration (survivor clip delta duration) = doc.clipDuration clip := rfl

theorem validateEnabled_eq_ok : validateEnabled clip = .ok () ↔
    ∀ curve ∈ clip.enabledCurve, validateClipEnabledCurve clip.id curve = .ok () := by
  rw [validateEnabled]
  cases clip.enabledCurve with
  | none => exact ⟨by rintro - _ ⟨⟩, fun _ => rfl⟩
  | some curve => exact ⟨fun h _ hcurve => Option.some.inj hcurve ▸ h, fun h => h curve rfl⟩

/-- The keyed enable of a clip is valid after it was moved, exactly if its keys stay in bounds. -/
theorem validateClipEnabledCurve_moved {id : ClipId} (h : validateClipEnabledCurve id curve = .ok ()) :
    validateClipEnabledCurve id (rebaseClipCurveKeepOutside curve delta) = .ok () ↔ KeysWithin delta curve := by
  have hvalues : ((rebaseClipCurveKeepOutside curve delta).keyframes.find? fun key =>
      decide (key.value.toInt < 0 ∨ 1 < key.value.toInt)).isNone
        = (curve.keyframes.find? fun key => decide (key.value.toInt < 0 ∨ 1 < key.value.toInt)).isNone := by
    rw [rebaseClipCurveKeepOutside, find?_map, isNone_map]
    rfl
  rw [validateClipEnabledCurve, then_eq_ok, mapError_eq_ok] at h ⊢
  obtain ⟨hordered, hrange⟩ := h
  rw [validateOrdered_moved hordered, and_iff_left_iff_imp]
  intro _
  cases hfound : curve.keyframes.find? fun key => decide (key.value.toInt < 0 ∨ 1 < key.value.toInt) with
  | some key =>
    rw [hfound] at hrange
    cases hrange
  | none =>
    rw [hfound, isNone_none, isNone_iff_eq_none] at hvalues
    rw [hvalues]

section Edited

variable {start : TimeCode} {source : FrameRange} {content : ClipContent}

/-- The effects and the transition of a clip fit after an edit, exactly if they follow its origin and its length. -/
theorem dataFits_survivor (h : DataFits doc clip) (hold : doc.clipDuration clip = .ok duration)
    (hkind : content.isMedia = clip.content.isMedia) (hadjusts : content = .adjustment ↔ clip.content = .adjustment)
    (hduration : doc.clipDuration (clip.placed start source content) = .ok duration') (hpos : 0 < duration'.toInt) :
    DataFits doc (survivor (clip.placed start source content) delta duration') ↔
      (∀ effect ∈ clip.effects, effect.Within delta) ∧
        ∀ transition ∈ clip.transitionIn, transition.duration ≤ duration' := by
  have hdurationAfter : doc.clipDuration (survivor (clip.placed start source content) delta duration') = .ok duration' :=
    hduration
  have heffects : (survivor (clip.placed start source content) delta duration').effects
      = clip.effects.map (moved delta) := rfl
  have hvisual (effect : Effect) (heffect : effect ∈ clip.effects) :
      VisualFits doc clip.id (content = .adjustment) (effect.moved delta) ↔ effect.Within delta := by
    have hfits := h.each effect heffect
    exact visualFits_moved { hfits with supported := fun hcontent => hfits.supported (hadjusts.mp hcontent) }
  have htransition (transition : Transition) (hmem : transition ∈ clip.transitionIn) :
      validateTransition doc (survivor (clip.placed start source content) delta duration') transition = .ok () ↔
        transition.duration ≤ duration' := by
    obtain ⟨⟨⟨descriptor, hdescriptor, hsupported⟩, hlong⟩, -⟩ :=
      (validateTransition_eq_ok hold).mp (h.transition transition hmem)
    rw [validateTransition_eq_ok hdurationAfter, and_iff_right_iff_imp]
    intro _
    refine ⟨⟨descriptor, hdescriptor, fun hcontent => hsupported ⟨hadjusts.mp hcontent.1, hcontent.2⟩⟩, hlong⟩
  constructor
  · intro hafter
    refine ⟨fun effect heffect => ?_, fun transition hmem => ?_⟩
    · exact (hvisual effect heffect).mp (hafter.each (effect.moved delta) (heffects ▸ mem_map_of_mem heffect))
    · exact (htransition transition hmem).mp (hafter.transition transition hmem)
  · rintro ⟨hwithin, hlong⟩
    have haudio := (validateClipAudio_eq_ok hold).mp h.audio
    have hplaced : AudioFits (clip.placed start source content) duration :=
      ⟨fun hsilent => haudio.silent ⟨hkind ▸ hsilent.1, hsilent.2⟩, haudio.envelope, haudio.gain, haudio.fadeIn,
        haudio.fadeOut, haudio.fades⟩
    refine ⟨?_, ?_, ?_, ?_, ?_, ?_, ?_⟩
    · exact pairwise_map.mpr h.distinct
    · rw [heffects, forall_mem_map]
      exact fun effect heffect => (hvisual effect heffect).mpr (hwithin effect heffect)
    · rw [heffects, managedColorNodeCount, countP_map]
      exact h.managed
    · rw [heffects, lutNodeCount, countP_map]
      exact h.luts
    · rw [heffects, colorNodes, filterMap_map]
      exact h.stages
    · exact fun transition hmem => (htransition transition hmem).mpr (hlong transition hmem)
    · exact (validateClipAudio_eq_ok hdurationAfter).mpr (audioFits_survivor hplaced hpos)

/-- A clip that was edited is valid, exactly if it lasts. -/
theorem exists_clipValid_survivor (h : ClipValid doc track clip duration stop)
    (hkind : content.isMedia = clip.content.isMedia) (hadjusts : content = .adjustment ↔ clip.content = .adjustment)
    (hduration : doc.clipDuration (clip.placed start source content) = .ok duration') :
    (∃ duration stop, ClipValid doc track (survivor (clip.placed start source content) delta duration') duration stop) ↔
      Lasts doc track (clip.placed start source content) delta duration' := by
  have hdata := validateClipData_eq_ok.mp h.data
  have henabled := validateEnabled_eq_ok.mp h.enabled
  have hdurationAfter : doc.clipDuration (survivor (clip.placed start source content) delta duration') = .ok duration' :=
    hduration
  constructor
  · rintro ⟨_, stop', hafter⟩
    obtain rfl := Except.ok.inj (hdurationAfter.symm.trans hafter.duration_eq)
    obtain ⟨heffects, htransition⟩ := (dataFits_survivor hdata h.duration_eq hkind hadjusts hduration hafter.pos).mp
      (validateClipData_eq_ok.mp hafter.data)
    have hcontent := hafter.content
    have hstop : stop'.toInt = (clip.placed start source content).timelineStart.toInt + duration'.toInt := hafter.stop_eq
    refine ⟨hafter.start, hcontent, hafter.pos, hstop ▸ stop'.toInt_lt, htransition, heffects, fun curve hcurve => ?_⟩
    refine (validateClipEnabledCurve_moved (henabled curve hcurve)).mp ?_
    exact validateEnabled_eq_ok.mp hafter.enabled _ (map_eq_some_iff.mpr ⟨curve, hcurve, rfl⟩)
  · intro hlasts
    have hpos := hlasts.pos
    have hstart := hlasts.start
    obtain ⟨stop', -, hstop⟩ := exists_tryFrom_of_lt
      (n := (clip.placed start source content).timelineStart.toInt + duration'.toInt) (by omega) hlasts.stop
    refine ⟨duration', stop', hstart, ?_, ?_, hdurationAfter, hpos, hstop, ?_, validateEnabled_eq_ok.mpr ?_⟩
    · exact hlasts.content
    · exact fun hspan => h.speed (hkind ▸ hspan)
    · exact validateClipData_eq_ok.mpr ((dataFits_survivor hdata h.duration_eq hkind hadjusts hduration hpos).mpr
        ⟨hlasts.effects, hlasts.transition⟩)
    · intro curve hcurve
      obtain ⟨old, hold, rfl⟩ := map_eq_some_iff.mp hcurve
      exact (validateClipEnabledCurve_moved (henabled old hold)).mpr (hlasts.enabled old hold)

end Edited

end Kinewright.Model
