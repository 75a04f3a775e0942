import Kinewright.Model.Curves
import Kinewright.Model.Clips

/-!
# The parts of a valid mix

What `validate_track_mix` and `validate_audio_mix` accept, part by part. All checks of curves over the frames of the
project are one: how the keys follow each other, in which range their values are, and that they are inside the
project. So a change of the curves that keeps these keeps the mix valid.
-/

namespace Kinewright.Model

open Fallible List AutomationCurve
open Option hiding all_eq_true filter_map forall_mem_map map_map mem_map

variable {doc after : Document} {mix : AudioMix} {curve : AutomationCurve} {low high : Int64} {holdOnly : Prop}
  {duration duration' : TimeCode} {trackIds : List TrackId}

/-! ## Curves over the project -/

/-- What is checked of a curve over the frames of the project. -/
structure CurveFits (low high : Int64) (holdOnly : Prop) (duration : TimeCode) (curve : AutomationCurve) : Prop where
  valid : ValidKeys curve.keyframes
  range : ∀ key ∈ curve.keyframes, low ≤ key.value ∧ key.value ≤ high
  hold : holdOnly → ∀ key ∈ curve.keyframes, key.interpolation = .hold
  inside : ∀ key ∈ curve.keyframes, projectFrameInRange key.at_ duration = true

theorem projectFrameInRange_iff {at_ : TimeCode} :
    projectFrameInRange at_ duration = true ↔ at_ < duration ∨ duration ≤ 0 ∧ at_ = 0 := by
  rw [projectFrameInRange, Bool.or_eq_true, Bool.and_eq_true, decide_eq_true_eq, decide_eq_true_eq, decide_eq_true_eq]

theorem CurveFits.tame (h : CurveFits low high holdOnly duration curve) (hlow : -provenValueBound ≤ low.toInt)
    (hhigh : high.toInt ≤ provenValueBound) : Tame curve.keyframes := by
  intro key hkey
  obtain ⟨hle, hle'⟩ := h.range key hkey
  rw [Int64.le_iff_toInt_le] at hle hle'
  omega

theorem validateTrackCurve_eq_ok {track : TrackId} {parameter : String} :
    validateTrackCurve track parameter low high duration curve = .ok () ↔ CurveFits low high False duration curve := by
  simp only [validateTrackCurve, then_eq_ok, mapError_eq_ok, validate_eq_ok, all_eq_ok, refuse_eq_ok,
    Bool.not_eq_false, not_or, Int64.not_lt]
  constructor
  · rintro ⟨hvalid, h⟩
    exact ⟨hvalid, fun key hkey => (h key hkey).1, False.elim, fun key hkey => (h key hkey).2⟩
  · intro h
    exact ⟨h.valid, fun key hkey => ⟨h.range key hkey, h.inside key hkey⟩⟩

theorem validateAudioFaderCurve_eq_ok {invalid : Error → OpError} {outOfRange : Int32 → OpError}
    {outside : TimeCode → OpError} :
    validateAudioFaderCurve duration invalid outOfRange outside curve = .ok () ↔
      CurveFits (-600) 120 False duration curve := by
  simp only [validateAudioFaderCurve, then_eq_ok, mapError_eq_ok, validate_eq_ok, all_eq_ok,
    refuse_eq_ok, Bool.not_eq_false, not_or, Int64.not_lt]
  constructor
  · rintro ⟨hvalid, h⟩
    exact ⟨hvalid, fun key hkey => (h key hkey).1, False.elim, fun key hkey => (h key hkey).2⟩
  · intro h
    exact ⟨h.valid, fun key hkey => ⟨h.range key hkey, h.inside key hkey⟩⟩

/-- What is checked of a curve of an effect of a chain. -/
structure ChainCurveFits (duration : TimeCode) (effect : Effect) (descriptor : EffectDescriptor) (name : String)
    (curve : AutomationCurve) : Prop where
  keyable : isStaticAudioParameter effect.name name = false
  fits : ∃ parameter, descriptor.parameter name = some parameter ∧
    CurveFits parameter.min parameter.max (isHoldOnlyParameter effect.name name = true) duration curve

theorem validateChainCurve_eq_ok {chain : Option AudioBusId} {effect : Effect} {descriptor : EffectDescriptor}
    {name : String} : validateChainCurve duration chain effect descriptor name curve = .ok () ↔
      ChainCurveFits duration effect descriptor name curve := by
  simp only [validateChainCurve, then_eq_ok, mapError_eq_ok, validate_eq_ok, all_eq_ok, refuse_eq_ok,
    Bool.not_eq_false, Bool.not_eq_true, validateDescribedEffectParameter, not_and, not_exists, not_not]
  constructor
  · rintro ⟨hkeyable, hvalid, hhold, h⟩
    refine ⟨hkeyable, ?_⟩
    cases hparameter : descriptor.parameter name with
    | none =>
      -- a curve has a key, which no parameter takes
      obtain ⟨key, hkey⟩ := exists_mem_of_ne_nil _ hvalid.ne_nil
      obtain ⟨-, h⟩ := h key hkey
      rw [hparameter] at h
      cases h
    | some parameter =>
      simp only [hparameter, refuse_eq_ok, not_or, Int64.not_lt] at h
      exact ⟨parameter, rfl, hvalid, fun key hkey => (h key hkey).2, hhold, fun key hkey => (h key hkey).1⟩
  · rintro ⟨hkeyable, parameter, hparameter, h⟩
    refine ⟨hkeyable, h.valid, h.hold, fun key hkey => ⟨h.inside key hkey, ?_⟩⟩
    simp only [hparameter, refuse_eq_ok, not_or, Int64.not_lt]
    exact h.range key hkey

/-! ## Entries and faders -/

/-- A gain of a fader, and the curve that it follows. -/
structure FaderFits (duration : TimeCode) (gainTenthDb : Int32) (gainCurve : Option AutomationCurve) : Prop where
  gain : ¬ (gainTenthDb < -600 ∨ 120 < gainTenthDb)
  curve : ∀ curve ∈ gainCurve, CurveFits (-600) 120 False duration curve

/-- The entry of a track. -/
structure EntryFits (trackIds : List TrackId) (duration : TimeCode) (entry : TrackMix) : Prop where
  track : entry.track ∈ trackIds
  values : validateTrackMixValues entry = .ok ()
  gain : ∀ curve ∈ entry.gainCurve, CurveFits (-600) 120 False duration curve
  pan : ∀ curve ∈ entry.panCurve, CurveFits (-100) 100 False duration curve

theorem validateTrackMixAutomation_eq_ok {entry : TrackMix} : validateTrackMixAutomation entry duration = .ok () ↔
      (∀ curve ∈ entry.gainCurve, CurveFits (-600) 120 False duration curve) ∧
        ∀ curve ∈ entry.panCurve, CurveFits (-100) 100 False duration curve := by
  simp only [validateTrackMixAutomation, then_eq_ok, all_eq_ok, validateTrackCurve_eq_ok, mem_toList, mem_def]

theorem validateTrackMixAfter_eq_ok (before : List TrackMix) (entry : TrackMix) :
    validateTrackMixAfter doc before entry = .ok () ↔ (∀ previous ∈ before.getLast?, previous.track < entry.track) ∧
        EntryFits (doc.tracks.map Track.id) doc.duration entry := by
  have hlast (previous : TrackMix) : (refuse (entry.track = previous.track) (.duplicateTrackMix entry.track) >>=
      fun _ => refuse (entry.track < previous.track) .trackMixUnsorted) = (.ok () : Except OpError Unit) ↔
        previous.track < entry.track := by
    rw [then_eq_ok, refuse_eq_ok, refuse_eq_ok, Nat.not_lt]
    exact ⟨fun ⟨hne, hle⟩ => Nat.lt_of_le_of_ne hle (Ne.symm hne), fun hlt => ⟨Nat.ne_of_gt hlt, Nat.le_of_lt hlt⟩⟩
  rw [validateTrackMixAfter, then_eq_ok, then_eq_ok, then_eq_ok, validateTrackMixAutomation_eq_ok, refuse_eq_ok, not_not,
    all_eq_ok]
  simp only [hlast, mem_toList]
  constructor
  · rintro ⟨hbefore, htrack, hvalues, hgain, hpan⟩
    exact ⟨hbefore, htrack, hvalues, hgain, hpan⟩
  · rintro ⟨hbefore, h⟩
    exact ⟨hbefore, h.track, h.values, h.gain, h.pan⟩

/-! ## Chains -/

/-- What is checked of an effect of a chain. A chain that may not be ducked takes no ducking effect. -/
structure ChainEffectFits (duration : TimeCode) (ducks : Prop) (effect : Effect) : Prop where
  audio : isAudioEffect effect.name = true
  enabled : effect.enabled = true
  notKeyed : effect.enabledCurve = none
  valid : validateEffect effect = .ok ()
  ducking : effect.name = "audio_ducking" → ducks
  curves : ∃ descriptor, effectDescriptor effect.name = some descriptor ∧ ∀ name curve,
    effect.keyframes.get? name = some curve → ChainCurveFits duration effect descriptor name curve

/-- What is checked of a chain. -/
structure ChainFits (duration : TimeCode) (ducks : Prop) (effects : List Effect) : Prop where
  distinct : effects.Pairwise fun previous effect => effect.id ≠ previous.id
  each : ∀ effect ∈ effects, ChainEffectFits duration ducks effect
  lookahead : ¬ 20 < chainLookaheadMilliseconds effects

variable {ducks : Prop}

theorem validateChainEffect_eq_ok {errors : ChainErrors} (hducks : errors.ducking = .ok () ↔ ducks)
    (before : List Effect) (effect : Effect) : validateChainEffect duration errors before effect = .ok () ↔
      (∀ previous ∈ before, effect.id ≠ previous.id) ∧ ChainEffectFits duration ducks effect := by
  have hducking : errors.checkDucking effect = .ok () ↔ (effect.name = "audio_ducking" → ducks) := by
    rw [ChainErrors.checkDucking]
    split
    · rename_i hname
      rw [hducks]
      exact ⟨fun h _ => h, fun h => h hname⟩
    · rename_i hname
      exact ⟨fun _ hsame => absurd hsame hname, fun _ => rfl⟩
  have hfresh : effect.id ∉ before.map Effect.id ↔ ∀ previous ∈ before, effect.id ≠ previous.id := by
    rw [mem_map, not_exists]
    exact forall_congr' fun previous => by rw [not_and, ne_comm]
  have hcurves : validateAudioChainAutomation duration errors.chain effect = .ok () ↔
      ∃ descriptor, effectDescriptor effect.name = some descriptor ∧ ∀ name curve,
        effect.keyframes.get? name = some curve → ChainCurveFits duration effect descriptor name curve := by
    simp only [validateAudioChainAutomation, bind_eq_ok, okOr_eq_ok, all_eq_ok, validateChainCurve_eq_ok, Prod.forall,
      KeyedMap.mem_entries]
  rw [validateChainEffect, then_eq_ok, then_eq_ok, then_eq_ok, then_eq_ok, then_eq_ok, hducking, hcurves, refuse_eq_ok,
    refuse_eq_ok, refuse_eq_ok, hfresh, Bool.not_eq_false, not_or, Bool.not_eq_false, not_isSome_iff_eq_none]
  constructor
  · rintro ⟨hid, haudio, ⟨henabled, hnotKeyed⟩, hvalid, hduck, hcurves⟩
    exact ⟨hid, haudio, henabled, hnotKeyed, hvalid, hduck, hcurves⟩
  · rintro ⟨hid, h⟩
    exact ⟨hid, h.audio, ⟨h.enabled, h.notKeyed⟩, h.valid, h.ducking, h.curves⟩

/-! ## Buses and the master -/

/-- A bus by itself. -/
structure BusFits (trackIds : List TrackId) (duration : TimeCode) (bus : AudioBus) : Prop where
  named : Text.isBlank bus.name = false
  routed : bus.tracks ≠ []
  fader : FaderFits duration bus.gainTenthDb bus.gainCurve
  tracks : bus.tracks.Nodup ∧ ∀ track ∈ bus.tracks, track ∈ trackIds
  sidechain : bus.duckingSidechainTracks.Nodup ∧ ∀ track ∈ bus.duckingSidechainTracks, track ∈ trackIds
  chain : ChainFits duration (bus.duckingSidechainTracks ≠ []) bus.effects

/-- The master. -/
structure MasterFits (duration : TimeCode) (master : AudioMaster) : Prop where
  fader : FaderFits duration master.gainTenthDb master.gainCurve
  chain : ChainFits duration False master.effects

/-- Buses of different ids, which no track is routed to both of. -/
def BusesApart (previous bus : AudioBus) : Prop :=
  bus.id ≠ previous.id ∧ ∀ track ∈ bus.tracks, track ∉ previous.tracks

/-- The checks of tracks against those before them. -/
theorem allAfter_tracks_eq_ok {check : List TrackId → TrackId → Except OpError Unit} (tracks : List TrackId)
    (hcheck : ∀ before track, check before track = .ok () ↔ track ∉ before ∧ track ∈ trackIds) :
    allAfter check [] tracks = .ok () ↔ tracks.Nodup ∧ ∀ track ∈ tracks, track ∈ trackIds := by
  have hpairs (before : List TrackId) (track : TrackId) : check before track = .ok () ↔
      (∀ other ∈ before, other ≠ track) ∧ track ∈ trackIds := by
    rw [hcheck]
    refine and_congr_left' ⟨fun h other hother heq => h (heq ▸ hother), fun h hmem => h track hmem rfl⟩
  rw [allAfter_pairwise hpairs]
  exact ⟨fun h => h.2, fun h => ⟨forall_mem_nil _, h⟩⟩

variable {effects : List Effect}

theorem chain_eq_ok {errors : ChainErrors} (hducks : errors.ducking = .ok () ↔ ducks) {error : OpError} :
    ((allAfter (validateChainEffect duration errors) [] effects >>= fun _ =>
      refuse (20 < chainLookaheadMilliseconds effects) error) = .ok ()) ↔ ChainFits duration ducks effects := by
  rw [then_eq_ok, allAfter_pairwise (validateChainEffect_eq_ok hducks), refuse_eq_ok]
  exact ⟨fun ⟨⟨_, hdistinct, heach⟩, hlookahead⟩ => ⟨hdistinct, heach, hlookahead⟩,
    fun h => ⟨⟨forall_mem_nil _, h.distinct, h.each⟩, h.lookahead⟩⟩

theorem validateAudioBus_eq_ok {bus : AudioBus} :
    validateAudioBus doc bus = .ok () ↔ BusFits (doc.tracks.map Track.id) doc.duration bus := by
  have htrack (before : List TrackId) (track : TrackId) : validateBusTrack doc bus.id before track = .ok () ↔
      track ∉ before ∧ track ∈ doc.tracks.map Track.id := by
    rw [validateBusTrack, then_eq_ok, refuse_eq_ok, refuse_eq_ok, not_not]
  have hsidechain (before : List TrackId) (track : TrackId) :
      refuse (track ∈ before ∨ track ∉ doc.tracks.map Track.id) (OpError.audioBusMissingTrack bus.id track) = .ok () ↔
        track ∉ before ∧ track ∈ doc.tracks.map Track.id := by
    rw [refuse_eq_ok, not_or, not_not]
  have hducks : refuse (bus.duckingSidechainTracks = []) (OpError.audioBusDuckingWithoutSidechain bus.id) = .ok () ↔
      bus.duckingSidechainTracks ≠ [] := refuse_eq_ok
  rw [validateAudioBus, then_eq_ok, then_eq_ok, then_eq_ok, then_eq_ok, then_eq_ok,
    allAfter_tracks_eq_ok bus.tracks htrack, allAfter_tracks_eq_ok bus.duckingSidechainTracks hsidechain,
    chain_eq_ok hducks, all_eq_ok, refuse_eq_ok, refuse_eq_ok, not_or, Bool.not_eq_true]
  simp only [validateAudioFaderCurve_eq_ok, mem_toList]
  constructor
  · rintro ⟨⟨hnamed, hrouted⟩, hgain, hcurve, htracks, hsidechain, hchain⟩
    exact ⟨hnamed, hrouted, ⟨hgain, hcurve⟩, htracks, hsidechain, hchain⟩
  · intro h
    exact ⟨⟨h.named, h.routed⟩, h.fader.gain, h.fader.curve, h.tracks, h.sidechain, h.chain⟩

theorem validateAudioMaster_eq_ok {master : AudioMaster} :
    validateAudioMaster doc master = .ok () ↔ MasterFits doc.duration master := by
  have hducks : (Except.error OpError.audioMasterDuckingUnsupported : Except OpError Unit) = .ok () ↔ False :=
    ⟨nofun, False.elim⟩
  rw [validateAudioMaster, then_eq_ok, then_eq_ok, chain_eq_ok hducks, all_eq_ok, refuse_eq_ok]
  simp only [validateAudioFaderCurve_eq_ok, mem_toList]
  exact ⟨fun ⟨hgain, hcurve, hchain⟩ => ⟨⟨hgain, hcurve⟩, hchain⟩, fun h => ⟨h.fader.gain, h.fader.curve, h.chain⟩⟩

/-- No bus before has the track. -/
theorem routed_eq_ok (before : List AudioBus) (bus : AudioBus) (track : TrackId) :
    (match before.find? fun other => track ∈ other.tracks with
      | some first => (.error (.trackInMultipleAudioBuses track first.id bus.id) : Except OpError Unit)
      | none => .ok ()) = .ok () ↔ ∀ previous ∈ before, track ∉ previous.tracks := by
  cases hfind : before.find? fun other => track ∈ other.tracks with
  | none =>
    rw [find?_eq_none] at hfind
    exact ⟨fun _ previous hprevious hmem => hfind previous hprevious (decide_eq_true hmem), fun _ => rfl⟩
  | some first =>
    refine ⟨by rintro ⟨⟩, fun h => ?_⟩
    have hin := find?_some hfind
    exact absurd (of_decide_eq_true hin) (h first (mem_of_find?_eq_some hfind))

theorem validateBusAfter_eq_ok (before : List AudioBus) (bus : AudioBus) : validateBusAfter doc before bus = .ok () ↔
      (∀ previous ∈ before, BusesApart previous bus) ∧ BusFits (doc.tracks.map Track.id) doc.duration bus := by
  rw [validateBusAfter, then_eq_ok, then_eq_ok, validateAudioBus_eq_ok, all_eq_ok, refuse_eq_ok, mem_map, not_exists]
  refine (and_congr Iff.rfl (and_congr Iff.rfl (forall₂_congr fun track _ => routed_eq_ok before bus track))).trans ?_
  constructor
  · rintro ⟨hid, hbus, htracks⟩
    exact ⟨fun previous hprevious => ⟨fun heq => hid previous ⟨hprevious, heq.symm⟩, fun track htrack =>
      htracks track htrack previous hprevious⟩, hbus⟩
  · rintro ⟨hapart, hbus⟩
    refine ⟨?_, hbus, fun track htrack previous hprevious => (hapart previous hprevious).2 track htrack⟩
    rintro previous ⟨hprevious, heq⟩
    exact (hapart previous hprevious).1 heq.symm

/-! ## The mix -/

/-- What is checked of a mix. -/
structure MixFits (mix : AudioMix) (trackIds : List TrackId) (duration : TimeCode) : Prop where
  sorted : mix.tracks.IsChain fun previous entry => previous.track < entry.track
  entries : ∀ entry ∈ mix.tracks, EntryFits trackIds duration entry
  apart : mix.buses.Pairwise BusesApart
  buses : ∀ bus ∈ mix.buses, BusFits trackIds duration bus
  master : MasterFits duration mix.master

theorem validateMix_eq_ok : validateMix doc = .ok () ↔ MixFits doc.audioMix (doc.tracks.map Track.id) doc.duration := by
  rw [validateMix, then_eq_ok, then_eq_ok, allAfter_chain validateTrackMixAfter_eq_ok,
    allAfter_pairwise validateBusAfter_eq_ok, validateAudioMaster_eq_ok]
  constructor
  · rintro ⟨⟨-, hsorted, hentries⟩, ⟨-, hapart, hbuses⟩, hmaster⟩
    exact ⟨hsorted, hentries, hapart, hbuses, hmaster⟩
  · intro h
    exact ⟨⟨nofun, h.sorted, h.entries⟩, ⟨forall_mem_nil _, h.apart, h.buses⟩, h.master⟩

/-! ## Changes of curves -/

/-- The effects with other curves. -/
def mapChain (f : AutomationCurve → AutomationCurve) (effects : List Effect) : List Effect :=
  effects.map fun effect => { effect with keyframes := effect.keyframes.map fun _ curve => f curve }

/-- The mix with other curves, of the tracks and of everything else. -/
def AudioMix.mapCurves (track : TrackId → AutomationCurve → AutomationCurve) (other : AutomationCurve → AutomationCurve)
    (mix : AudioMix) : AudioMix :=
  { mix with
    tracks := mix.tracks.map fun entry =>
      { entry with
        gainCurve := entry.gainCurve.map (track entry.track)
        panCurve := entry.panCurve.map (track entry.track) }
    buses := mix.buses.map fun bus =>
      { bus with gainCurve := bus.gainCurve.map other, effects := mapChain other bus.effects }
    master :=
      { mix.master with
        gainCurve := mix.master.gainCurve.map other
        effects := mapChain other mix.master.effects } }

/-- A change of a curve that leaves it fitting, when the project gets another duration. -/
def Refits (duration duration' : TimeCode) (f : AutomationCurve → AutomationCurve) : Prop :=
  ∀ curve low high holdOnly, -provenValueBound ≤ low.toInt → high.toInt ≤ provenValueBound →
    CurveFits low high holdOnly duration curve → CurveFits low high holdOnly duration' (f curve)

/-- A curve fits in a project that is no shorter. -/
theorem CurveFits.mono (h : CurveFits low high holdOnly duration curve) (hle : duration ≤ duration') :
    CurveFits low high holdOnly duration' curve where
  valid := h.valid
  range := h.range
  hold := h.hold
  inside key hkey := by
    have hinside := h.inside key hkey
    rw [projectFrameInRange_iff] at hinside ⊢
    rcases hinside with hlt | ⟨hempty, hzero⟩
    · exact .inl (Int64.lt_of_lt_of_le hlt hle)
    · by_cases hpos : duration' ≤ 0
      · exact .inr ⟨hpos, hzero⟩
      · rw [hzero]
        exact .inl (Int64.not_le.mp hpos)

theorem refits_of_le (hle : duration ≤ duration') : Refits duration duration' id := fun _ _ _ _ _ _ h => h.mono hle

/-- A curve that is cut to the new duration fits. -/
theorem refits_clamp (duration duration' : TimeCode) : Refits duration duration' (clampProjectCurve · duration') := by
  intro curve low high holdOnly hlow hhigh h
  have htame := h.tame hlow hhigh
  refine ⟨clampProjectCurve_valid h.valid duration', fun key hkey => ?_, fun hhold key hkey => ?_, fun key hkey => ?_⟩
  · obtain ⟨-, hmem | ⟨source, heq⟩⟩ := clampProjectCurve_mem h.valid hkey
    · exact h.range key hmem
    · obtain ⟨value, hvalue, hrange⟩ := valueAtKeys_total h.valid htame source
      have hread := boundaryKey_value h.valid htame key.at_ source
      rw [valueAt, hvalue, ← heq, Option.some.injEq] at hread
      exact hread ▸ hrange low high h.range
  · obtain ⟨-, hmem | ⟨source, heq⟩⟩ := clampProjectCurve_mem h.valid hkey
    · exact h.hold hhold key hmem
    · obtain ⟨old, hold, hinterpolation⟩ := curve.segmentInterpolationAt_mem h.valid.ne_nil source
      rw [heq]
      exact hinterpolation.trans (h.hold hhold old hold)
  · exact projectFrameInRange_iff.mpr (clampProjectCurve_mem h.valid hkey).1

/-- The parameters of the audio effects are within the bound of evaluation. -/
theorem audioParameter_bounds {name parameterName : String} {descriptor : EffectDescriptor}
    {parameter : EffectParameterDescriptor} (haudio : isAudioEffect name = true)
    (hdescriptor : effectDescriptor name = some descriptor)
    (hparameter : descriptor.parameter parameterName = some parameter) :
    -provenValueBound ≤ parameter.min.toInt ∧ parameter.max.toInt ≤ provenValueBound := by
  have hall : effectDescriptors.all (fun descriptor => !isAudioEffect descriptor.name ||
      descriptor.parameters.all fun parameter =>
        decide (-provenValueBound ≤ parameter.min.toInt ∧ parameter.max.toInt ≤ provenValueBound)) = true := by
    decide +kernel
  have hmem : descriptor ∈ effectDescriptors := mem_of_find?_eq_some hdescriptor
  have hin : parameter ∈ descriptor.parameters := mem_of_find?_eq_some hparameter
  have hchecked := all_eq_true.mp hall descriptor hmem
  rw [name_of_effectDescriptor hdescriptor, haudio, Bool.not_true, Bool.false_or, all_eq_true] at hchecked
  exact of_decide_eq_true (hchecked parameter hin)

variable {f : AutomationCurve → AutomationCurve}

theorem FaderFits.map {gain : Int32} {gainCurve : Option AutomationCurve} (h : FaderFits duration gain gainCurve)
    (hf : Refits duration duration' f) :
    FaderFits duration' gain (gainCurve.map f) where
  gain := h.gain
  curve curve hcurve := by
    obtain ⟨old, hold, rfl⟩ := map_eq_some_iff.mp hcurve
    exact hf old _ _ _ (by decide) (by decide) (h.curve old hold)

theorem EntryFits.map {entry : TrackMix} (h : EntryFits trackIds duration entry) (hf : Refits duration duration' f) :
    EntryFits trackIds duration'
      { entry with gainCurve := entry.gainCurve.map f, panCurve := entry.panCurve.map f } where
  track := h.track
  values := h.values
  gain curve hcurve := by
    obtain ⟨old, hold, rfl⟩ := map_eq_some_iff.mp hcurve
    exact hf old _ _ _ (by decide) (by decide) (h.gain old hold)
  pan curve hcurve := by
    obtain ⟨old, hold, rfl⟩ := map_eq_some_iff.mp hcurve
    exact hf old _ _ _ (by decide) (by decide) (h.pan old hold)

/-- Whether an effect is valid depends on what it has curves of, and not on the curves. -/
theorem validateEffect_mapCurves {effect effect' : Effect} (h : validateEffect effect = .ok ())
    (hname : effect'.name = effect.name) (hparameters : effect'.parameters = effect.parameters)
    (hkeyframes : effect'.keyframes = effect.keyframes.map fun _ curve => f curve) : validateEffect effect' = .ok () := by
  rw [validateEffect, bind_eq_ok] at h ⊢
  rw [hname, hparameters, hkeyframes]
  obtain ⟨descriptor, hdescriptor, h⟩ := h
  rw [then_eq_ok, then_eq_ok, all_eq_ok, all_eq_ok] at h
  refine ⟨descriptor, hdescriptor, ?_⟩
  rw [then_eq_ok, then_eq_ok, all_eq_ok, all_eq_ok]
  refine ⟨h.1, h.2.1, ?_⟩
  rintro ⟨name, curve⟩ hentry
  rw [KeyedMap.mem_entries] at hentry
  obtain ⟨old, hold, -⟩ := map_eq_some_iff.mp hentry
  exact h.2.2 (name, old) (KeyedMap.mem_entries.mpr hold)

theorem ChainFits.map (h : ChainFits duration ducks effects) (hf : Refits duration duration' f) :
    ChainFits duration' ducks (mapChain f effects) where
  distinct := pairwise_map.mpr h.distinct
  each := by
    rw [mapChain, forall_mem_map]
    intro effect heffect
    have hfits := h.each effect heffect
    obtain ⟨descriptor, hdescriptor, hcurves⟩ := hfits.curves
    refine ⟨hfits.audio, hfits.enabled, hfits.notKeyed, validateEffect_mapCurves hfits.valid rfl rfl rfl, hfits.ducking,
      descriptor, hdescriptor, fun name curve hcurve => ?_⟩
    obtain ⟨old, hold, rfl⟩ := map_eq_some_iff.mp hcurve
    obtain ⟨hkeyable, parameter, hparameter, hfit⟩ := hcurves name old hold
    obtain ⟨hlow, hhigh⟩ := audioParameter_bounds hfits.audio hdescriptor hparameter
    exact ⟨hkeyable, parameter, hparameter, hf old _ _ _ hlow hhigh hfit⟩
  lookahead := by
    have hsame : chainLookaheadMilliseconds (mapChain f effects) = chainLookaheadMilliseconds effects := by
      rw [chainLookaheadMilliseconds, mapChain, filter_map, map_map]
      rfl
    rw [hsame]
    exact h.lookahead

/-- A mix fits with other curves that fit. -/
theorem MixFits.mapCurves {track : TrackId → AutomationCurve → AutomationCurve} {other : AutomationCurve → AutomationCurve}
    (h : MixFits mix trackIds duration) (htrack : ∀ id, Refits duration duration' (track id))
    (hother : Refits duration duration' other) : MixFits (mix.mapCurves track other) trackIds duration' where
  sorted := (isChain_map _).mpr h.sorted
  entries := by
    rw [AudioMix.mapCurves, forall_mem_map]
    exact fun entry hentry => (h.entries entry hentry).map (htrack entry.track)
  apart := pairwise_map.mpr h.apart
  buses := by
    rw [AudioMix.mapCurves, forall_mem_map]
    intro bus hbus
    have hfits := h.buses bus hbus
    exact ⟨hfits.named, hfits.routed, hfits.fader.map hother, hfits.tracks, hfits.sidechain, hfits.chain.map hother⟩
  master := ⟨h.master.fader.map hother, h.master.chain.map hother⟩

theorem KeyedMap.map_self (m : KeyedMap String AutomationCurve) : (m.map fun _ curve => curve) = m :=
  KeyedMap.ext_get? fun name => by rw [KeyedMap.get?_map, Option.map_id']

theorem mapChain_id (effects : List Effect) : mapChain id effects = effects := by
  refine map_id'' (fun effect => ?_) effects
  rw [show (effect.keyframes.map fun _ curve => id curve) = effect.keyframes from KeyedMap.map_self effect.keyframes]

theorem AudioMix.mapCurves_id (mix : AudioMix) : mix.mapCurves (fun _ => id) id = mix := by
  have htracks : mix.tracks.map (fun entry =>
      { entry with gainCurve := entry.gainCurve.map id, panCurve := entry.panCurve.map id }) = mix.tracks :=
    map_id'' (fun entry => by rw [Option.map_id]; rfl) mix.tracks
  have hbuses : mix.buses.map (fun bus =>
      { bus with gainCurve := bus.gainCurve.map id, effects := mapChain id bus.effects }) = mix.buses :=
    map_id'' (fun bus => by rw [Option.map_id, id, mapChain_id]) mix.buses
  rw [AudioMix.mapCurves, htracks, hbuses, Option.map_id, id, mapChain_id]

/-- A mix fits in a project that is no shorter. -/
theorem MixFits.mono (h : MixFits mix trackIds duration) (hle : duration ≤ duration') :
    MixFits mix trackIds duration' := by
  have hmapped := h.mapCurves (fun _ => refits_of_le hle) (refits_of_le hle)
  rwa [AudioMix.mapCurves_id] at hmapped

/-- A mix fits with more tracks. -/
theorem MixFits.more {trackIds' : List TrackId} (h : MixFits mix trackIds duration) (hmore : trackIds ⊆ trackIds') :
    MixFits mix trackIds' duration where
  sorted := h.sorted
  entries entry hentry := by
    have hfits := h.entries entry hentry
    exact ⟨hmore hfits.track, hfits.values, hfits.gain, hfits.pan⟩
  apart := h.apart
  buses bus hbus := by
    have hfits := h.buses bus hbus
    exact ⟨hfits.named, hfits.routed, hfits.fader, hfits.tracks.imp_right fun h track htrack => hmore (h track htrack),
      hfits.sidechain.imp_right fun h track htrack => hmore (h track htrack), hfits.chain⟩
  master := h.master

/-! ## The curves of a mix -/

/-- The curves of the effects of a chain. -/
def chainCurves (effects : List Effect) : List AutomationCurve :=
  effects.flatMap fun effect => effect.keyframes.entries.map Prod.snd

/-- Every curve over the frames of the project. -/
def AudioMix.curves (mix : AudioMix) : List AutomationCurve :=
  (mix.tracks.flatMap fun entry => entry.gainCurve.toList ++ entry.panCurve.toList) ++
    (mix.buses.flatMap fun bus => bus.gainCurve.toList ++ chainCurves bus.effects) ++
      (mix.master.gainCurve.toList ++ chainCurves mix.master.effects)

theorem chain_curve_valid (h : ChainFits duration ducks effects) (hcurve : curve ∈ chainCurves effects) :
    ValidKeys curve.keyframes ∧ Tame curve.keyframes := by
  obtain ⟨effect, heffect, hcurve⟩ := mem_flatMap.mp hcurve
  obtain ⟨⟨name, _⟩, hentry, rfl⟩ := mem_map.mp hcurve
  have hfits := h.each effect heffect
  obtain ⟨descriptor, hdescriptor, hcurves⟩ := hfits.curves
  obtain ⟨-, parameter, hparameter, hfit⟩ := hcurves name _ (KeyedMap.mem_entries.mp hentry)
  obtain ⟨hlow, hhigh⟩ := audioParameter_bounds hfits.audio hdescriptor hparameter
  exact ⟨hfit.valid, hfit.tame hlow hhigh⟩

/-- The curves of a mix that fits can be evaluated. -/
theorem MixFits.curve_valid (h : MixFits mix trackIds duration) (hcurve : curve ∈ mix.curves) :
    ValidKeys curve.keyframes ∧ Tame curve.keyframes := by
  have hfader {low high : Int64} (hfit : CurveFits low high False duration curve)
      (hlow : -provenValueBound ≤ low.toInt) (hhigh : high.toInt ≤ provenValueBound) :
      ValidKeys curve.keyframes ∧ Tame curve.keyframes := ⟨hfit.valid, hfit.tame hlow hhigh⟩
  rw [AudioMix.curves, mem_append, mem_append, mem_append, mem_flatMap, mem_flatMap] at hcurve
  rcases hcurve with (⟨entry, hentry, hcurve⟩ | ⟨bus, hbus, hcurve⟩) | hmaster | hmaster
  · rcases mem_append.mp hcurve with hgain | hpan
    · exact hfader ((h.entries entry hentry).gain curve (mem_toList.mp hgain)) (by decide) (by decide)
    · exact hfader ((h.entries entry hentry).pan curve (mem_toList.mp hpan)) (by decide) (by decide)
  · rcases mem_append.mp hcurve with hgain | hchain
    · exact hfader ((h.buses bus hbus).fader.curve curve (mem_toList.mp hgain)) (by decide) (by decide)
    · exact chain_curve_valid (h.buses bus hbus).chain hchain
  · exact hfader (h.master.fader.curve curve (mem_toList.mp hmaster)) (by decide) (by decide)
  · exact chain_curve_valid h.master.chain hmaster

/-- The curves of the mix were cut, and nothing else of it was changed. What the curves give in the frames that are
left is kept where they are flat, and at the last frame. -/
def Cuts (duration : TimeCode) (mix mix' : AudioMix) : Prop :=
  ∃ cut : AutomationCurve → AutomationCurve, mix' = mix.mapCurves (fun _ => cut) cut ∧
    ∀ curve ∈ mix.curves, KeepsValues duration curve (cut curve)

/-- How the mix follows the duration when that is computed anew. -/
def AudioMix.following (mix : AudioMix) (before after : TimeCode) : AudioMix :=
  if after < before then clampAudioMixCurves mix after else mix

theorem cuts_following (h : ∀ curve ∈ mix.curves, ValidKeys curve.keyframes ∧ Tame curve.keyframes)
    (before duration : TimeCode) : Cuts duration mix (mix.following before duration) := by
  rw [AudioMix.following]
  split
  · refine ⟨(clampProjectCurve · duration), rfl, fun curve hcurve => ?_⟩
    obtain ⟨hvalid, htame⟩ := h curve hcurve
    exact clampProjectCurve_keeps hvalid htame duration
  · exact ⟨id, (AudioMix.mapCurves_id mix).symm, fun curve _ => .refl duration curve⟩

/-! ## Documents with other tracks -/

theorem exists_lastEnd {clips : List Clip} (h : ∀ clip ∈ clips, ∃ stop, doc.clipEnd clip = .ok stop) (duration : TimeCode) :
    ∃ last, doc.lastEnd clips duration = .ok last := by
  induction clips generalizing duration with
  | nil => exact ⟨duration, rfl⟩
  | cons clip clips ih =>
    obtain ⟨⟨stop, hstop⟩, hclips⟩ := forall_mem_cons.mp h
    rw [Document.lastEnd, hstop]
    exact ih hclips _

theorem Document.Valid.mixFits (h : doc.Valid) : MixFits doc.audioMix (doc.tracks.map Track.id) doc.duration :=
  validateMix_eq_ok.mp h.mix

/-- With other tracks that are valid, and a mix that fits them, a document is valid once its duration is computed. -/
theorem Document.Valid.retracked (h : doc.Valid) {tracks : List Track} (htracks : TracksValid doc tracks)
    (hmix : MixFits mix (tracks.map Track.id) doc.duration) :
    ∃ duration, doc.lastEnd (tracks.flatMap Track.clips) 0 = .ok duration ∧
      (doc.exchanged tracks mix doc.duration).recomputeDuration
        = .ok (doc.exchanged tracks (mix.following doc.duration duration) duration) ∧
      (doc.exchanged tracks (mix.following doc.duration duration) duration).Valid := by
  have hends : ∀ clip ∈ tracks.flatMap Track.clips, ∃ stop, doc.clipEnd clip = .ok stop := by
    intro clip hclip
    obtain ⟨track, htrack, hclip⟩ := mem_flatMap.mp hclip
    obtain ⟨duration, stop, hvalid⟩ := htracks.clips track htrack clip hclip
    exact ⟨stop, hvalid.clipEnd⟩
  obtain ⟨duration, hduration⟩ := exists_lastEnd hends 0
  refine ⟨duration, hduration, ?_, h.exchanged htracks hduration (validateMix_eq_ok.mpr ?_)⟩
  · have hlast : (doc.exchanged tracks mix doc.duration).lastEnd (doc.exchanged tracks mix doc.duration).clips 0
        = .ok duration := by
      rw [(sameFootage_exchanged doc tracks mix doc.duration).lastEnd]
      exact hduration
    rw [Document.recomputeDuration, hlast]
    rfl
  · change MixFits (mix.following doc.duration duration) (tracks.map Track.id) duration
    rw [AudioMix.following]
    split
    · exact hmix.mapCurves (fun _ => refits_clamp _ _) (refits_clamp _ _)
    · rename_i hle
      exact hmix.mono (Int64.not_lt.mp hle)

end Kinewright.Model
