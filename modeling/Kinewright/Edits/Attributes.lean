import Kinewright.Lib.Occurrences
import Kinewright.Model.Clips
import Kinewright.Timeline.Layers
import Kinewright.Edits.Single

/-!
# Copied attributes

`copy_clip_attributes` matches the effects of two clips by name and occurrence. The slots are those of the target
before the copy; an effect without one is appended. The effects of a name keep their order, so a second copy finds
every effect where the first one put it and replaces it by itself.
-/

namespace Kinewright.Edits

open Fallible Model
open List hiding all

variable {target earlier result effects : List Effect} {effect : Effect} {includeKeyframes : Bool} {name : String}
  {k index : ℕ} {nextId : EffectId}

/-! ## Occurrences of a name -/

/-- The effects of the name, in order. -/
def named (name : String) (effects : List Effect) : List Effect := effects.filter fun effect => effect.name = name

/-- The slot of an occurrence is its index. -/
theorem slotOf_eq_some (h : slotOf target name k = some index) : ∃ old, target[index]? = some old ∧
    old.name = name ∧ (target.take index).countP (fun effect => effect.name = name) = k := by
  rw [slotOf, Option.map_eq_some_iff] at h
  obtain ⟨⟨old, i⟩, hat, rfl⟩ := h
  obtain ⟨j, hj, hat, hname, hcount⟩ := getElem?_filter_zipIdx (p := fun effect : Effect => effect.name = name) hat
  rw [Nat.zero_add] at hj
  subst hj
  exact ⟨old, hat, of_decide_eq_true hname, hcount⟩

/-- An occurrence has a slot if the target has so many. -/
theorem slotOf_eq_none : slotOf target name k = none ↔ (named name target).length ≤ k := by
  rw [slotOf, Option.map_eq_none_iff, List.getElem?_eq_none_iff,
    length_filter_zipIdx (fun effect : Effect => decide (effect.name = name)), named]

theorem named_concat_self (earlier : List Effect) (effect : Effect) :
    named effect.name (earlier ++ [effect]) = named effect.name earlier ++ [effect] := by
  rw [named, filter_append, filter_singleton, decide_eq_true rfl]
  rfl

theorem named_concat_other (earlier : List Effect) (hne : effect.name ≠ name) :
    named name (earlier ++ [effect]) = named name earlier := by
  rw [named, filter_append, filter_singleton, decide_eq_false hne]
  exact append_nil _

/-- The occurrences that were seen are those of the effects before. -/
theorem seen_cons {seen : List String} (effect : Effect)
    (hseen : ∀ name, seen.count name = (named name earlier).length) (name : String) :
    (effect.name :: seen).count name = (named name (earlier ++ [effect])).length := by
  by_cases hne : effect.name = name
  · subst hne
    rw [count_cons_self, hseen, named_concat_self, length_append, length_singleton]
  · rw [count_cons_of_ne hne, hseen, named_concat_other earlier hne]

/-! ## The loop -/

/-- The effect of the source, in the place of an effect of the target. -/
def replaced (includeKeyframes : Bool) (effect old : Effect) : Effect :=
  { effect with
    id := old.id
    keyframes := if includeKeyframes then effect.keyframes else old.keyframes }

/-- Every occurrence in the source is carried by the same occurrence in the target. -/
def Carries (includeKeyframes : Bool) (source target : List Effect) : Prop :=
  ∀ (name : String) (k : ℕ) (effect : Effect), (named name source)[k]? = some effect →
    ∃ copy, (named name target)[k]? = some copy ∧ copy = replaced includeKeyframes effect copy

/-- The result of the copy of the effects `earlier`. -/
structure Copying (target earlier : List Effect) (includeKeyframes : Bool) (result : List Effect)
    (nextId : EffectId) : Prop where
  kept : (result.take target.length).map (fun effect => (effect.id, effect.name))
    = target.map fun effect => (effect.id, effect.name)
  untouched : ∀ (i : ℕ) (old : Effect), target[i]? = some old → old.name ∉ earlier.map Effect.name → result[i]? = some old
  added : ∀ new ∈ result.drop target.length, new.name ∈ earlier.map Effect.name
  length : ∀ name, (named name result).length = max (named name target).length (named name earlier).length
  carried : Carries includeKeyframes earlier result
  ids : (result.map Effect.id).Nodup
  bound : ∀ effect ∈ result, effect.id ≤ nextId

namespace Copying

variable (h : Copying target earlier includeKeyframes result nextId)

include h

/-- What stands in a slot of the target. -/
theorem slot (hslot : slotOf target name k = some index) : ∃ old, result[index]? = some old ∧ old.name = name ∧
    (result.take index).countP (fun effect => effect.name = name) = k := by
  obtain ⟨old, hold, hname, hcount⟩ := slotOf_eq_some hslot
  have hlt := (List.getElem?_eq_some_iff.mp hold).1
  have hat := congrArg (·[index]?) h.kept
  simp only [getElem?_map, getElem?_take_of_lt hlt, hold, Option.map_some] at hat
  obtain ⟨new, hnew, hkey⟩ := Option.map_eq_some_iff.mp hat
  refine ⟨new, hnew, (Prod.mk.inj hkey).2.trans hname, ?_⟩
  have htake := congrArg (List.countP (fun key : EffectId × String => key.2 = name) ∘ List.take index) h.kept
  simp only [Function.comp_apply, ← map_take, countP_map, take_take, min_eq_left hlt.le] at htake
  rw [← hcount]
  exact htake

/-- An occurrence with a slot is put there. -/
theorem replace (hslot : slotOf target effect.name (named effect.name earlier).length = some index) :
    Copying target (earlier ++ [effect]) includeKeyframes
      (result.modify index (replaced includeKeyframes effect)) nextId := by
  obtain ⟨old, hold, hname, hcount⟩ := h.slot hslot
  have hindex : index < target.length := by
    obtain ⟨first, hfirst, -⟩ := slotOf_eq_some hslot
    exact (List.getElem?_eq_some_iff.mp hfirst).1
  have hself : named effect.name (result.modify index (replaced includeKeyframes effect))
      = (named effect.name result).modify (named effect.name earlier).length (replaced includeKeyframes effect) := by
    rw [← hcount]
    exact filter_modify_of_pos hold (decide_eq_true hname) (decide_eq_true rfl)
  have hother (name : String) (hne : effect.name ≠ name) :
      named name (result.modify index (replaced includeKeyframes effect)) = named name result :=
    filter_modify_of_neg hold (by simp [hname, hne]) (by simp [replaced, hne])
  have hoccurrence : (named effect.name result)[(named effect.name earlier).length]? = some old := by
    rw [← hcount]
    exact getElem?_filter_countP hold (decide_eq_true hname)
  have hfixed {β : Type} (key : Effect → β) (hkey : key (replaced includeKeyframes effect old) = key old) :
      ∀ other ∈ result[index]?, key (replaced includeKeyframes effect other) = key other := by
    intro other hother
    obtain rfl := Option.some.inj (hold.symm.trans hother)
    exact hkey
  refine ⟨?_, ?_, ?_, ?_, ?_, ?_, ?_⟩
  · rw [take_modify, map_modify_of_fixed, h.kept]
    intro other hother
    rw [getElem?_take_of_lt hindex] at hother
    refine hfixed (fun effect => (effect.id, effect.name)) ?_ other hother
    rw [replaced, hname]
  · intro i first hfirst hname'
    rw [map_append, mem_append, not_or] at hname'
    have hat := h.untouched i first hfirst hname'.1
    rw [getElem?_modify_ne]
    · exact hat
    · rintro rfl
      obtain rfl := Option.some.inj (hold.symm.trans hat)
      exact hname'.2 (mem_singleton.mpr hname)
  · intro new hnew
    rw [drop_modify_of_lt _ _ _ _ hindex] at hnew
    rw [map_append]
    exact mem_append_left _ (h.added new hnew)
  · intro name
    have hlength := h.length name
    by_cases hne : effect.name = name
    · subst hne
      have hslots : (named effect.name earlier).length < (named effect.name target).length := by
        by_contra hle
        rw [slotOf_eq_none.mpr (by omega)] at hslot
        cases hslot
      rw [hself, length_modify, named_concat_self, length_append, length_singleton]
      omega
    · rw [hother name hne, named_concat_other earlier hne]
      exact hlength
  · intro name k source hsource
    by_cases hne : effect.name = name
    · subst hne
      rw [named_concat_self] at hsource
      rw [hself]
      rcases getElem?_concat_eq_some hsource with hsource | ⟨rfl, rfl⟩
      · obtain ⟨copy, hcopy, heq⟩ := h.carried _ k source hsource
        have hlt := (List.getElem?_eq_some_iff.mp hsource).1
        refine ⟨copy, ?_, heq⟩
        rw [getElem?_modify_ne _ _ (by omega)]
        exact hcopy
      · refine ⟨replaced includeKeyframes source old, ?_, ?_⟩
        · rw [getElem?_modify_eq, hoccurrence]
          rfl
        · cases includeKeyframes <;> rfl
    · rw [named_concat_other earlier hne] at hsource
      rw [hother name hne]
      exact h.carried name k source hsource
  · rw [map_modify_of_fixed (hfixed Effect.id rfl)]
    exact h.ids
  · intro other hother
    have hids := map_modify_of_fixed (hfixed Effect.id rfl)
    have hmem := mem_map_of_mem (f := Effect.id) hother
    rw [hids] at hmem
    obtain ⟨same, hsame, heq⟩ := mem_map.mp hmem
    rw [← heq]
    exact h.bound same hsame

/-- An occurrence without a slot is appended under a new id. -/
theorem append (hslot : slotOf target effect.name (named effect.name earlier).length = none) {new : Effect}
    (hid : new.id = nextId + 1) (hnew : new = replaced includeKeyframes effect new) :
    Copying target (earlier ++ [effect]) includeKeyframes (result ++ [new]) (nextId + 1) := by
  have hslots := slotOf_eq_none.mp hslot
  have hname : new.name = effect.name := by
    rw [hnew]
    rfl
  have hcount : (named effect.name result).length = (named effect.name earlier).length := by
    rw [h.length, max_eq_right hslots]
  have hlength : target.length ≤ result.length := by
    have hkept := congrArg List.length h.kept
    rw [length_map, length_map, length_take] at hkept
    omega
  refine ⟨?_, ?_, ?_, ?_, ?_, ?_, ?_⟩
  · rw [take_append_of_le_length hlength]
    exact h.kept
  · intro i first hfirst hfirstName
    rw [map_append, mem_append, not_or] at hfirstName
    have hat := h.untouched i first hfirst hfirstName.1
    rw [getElem?_append_left (List.getElem?_eq_some_iff.mp hat).1]
    exact hat
  · intro other hother
    rw [drop_append_of_le_length hlength] at hother
    rw [map_append, mem_append]
    rcases mem_append.mp hother with hother | hother
    · exact Or.inl (h.added other hother)
    · rw [mem_singleton.mp hother, hname]
      exact Or.inr (mem_singleton_self _)
  · intro name
    by_cases hne : effect.name = name
    · subst hne
      rw [← hname, named_concat_self, hname, named_concat_self, length_append, length_append, length_singleton, length_singleton]
      omega
    · rw [named_concat_other result (hname ▸ hne), named_concat_other earlier hne]
      exact h.length name
  · intro name k source hsource
    by_cases hne : effect.name = name
    · subst hne
      rw [named_concat_self] at hsource
      rw [← hname, named_concat_self, hname]
      rcases getElem?_concat_eq_some hsource with hsource | ⟨rfl, rfl⟩
      · obtain ⟨copy, hcopy, heq⟩ := h.carried _ k source hsource
        refine ⟨copy, ?_, heq⟩
        rw [getElem?_append_left (List.getElem?_eq_some_iff.mp hcopy).1]
        exact hcopy
      · refine ⟨new, ?_, hnew⟩
        rw [← hcount, getElem?_concat_length]
    · rw [named_concat_other earlier hne] at hsource
      rw [named_concat_other result (hname ▸ hne)]
      exact h.carried name k source hsource
  · rw [map_append, nodup_append]
    refine ⟨h.ids, nodup_singleton _, ?_⟩
    intro id hid' other hother
    rw [mem_singleton.mp hother, hid]
    obtain ⟨effect', heffect, rfl⟩ := mem_map.mp hid'
    exact Nat.ne_of_lt (Nat.lt_succ_of_le (h.bound effect' heffect))
  · intro other hother
    rcases mem_append.mp hother with hother | hother
    · exact Nat.le_succ_of_le (h.bound other hother)
    · rw [mem_singleton.mp hother, hid]

/-- The loop over the effects that are left. -/
theorem loop {final : List Effect} {seen : List String} (hseen : ∀ name, seen.count name = (named name earlier).length)
    (hcopy : copyEffects target includeKeyframes effects result seen nextId = .ok final) :
    ∃ lastId, Copying target (earlier ++ effects) includeKeyframes final lastId := by
  induction effects generalizing earlier result seen nextId with
  | nil =>
    obtain rfl := Except.ok.inj hcopy
    rw [append_nil]
    exact ⟨nextId, h⟩
  | cons effect effects ih =>
    have hseen' := seen_cons effect hseen
    rw [copyEffects, hseen] at hcopy
    rw [append_cons]
    cases hslot : slotOf target effect.name (named effect.name earlier).length with
    | some index =>
      rw [hslot] at hcopy
      exact ih (h.replace hslot) hseen' hcopy
    | none =>
      rw [hslot] at hcopy
      dsimp only at hcopy
      split at hcopy
      · refine ih (h.append hslot rfl ?_) hseen' hcopy
        cases includeKeyframes <;> rfl
      · cases hcopy

end Copying

/-! ## A second copy -/

/-- A target that carries the source already stays as it is. -/
theorem copyEffects_of_carries {source : List Effect} {seen : List String}
    (h : Carries includeKeyframes source target) (hsource : source = earlier ++ effects)
    (hseen : ∀ name, seen.count name = (named name earlier).length) :
    copyEffects target includeKeyframes effects target seen nextId = .ok target := by
  induction effects generalizing earlier seen with
  | nil => rfl
  | cons effect effects ih =>
    have hseen' := seen_cons effect hseen
    rw [append_cons] at hsource
    have hat : (named effect.name source)[(named effect.name earlier).length]? = some effect := by
      rw [hsource, named, filter_append]
      change (named effect.name (earlier ++ [effect]) ++ _)[_]? = _
      rw [named_concat_self, append_assoc, getElem?_append_right le_rfl, Nat.sub_self]
      rfl
    obtain ⟨copy, hcopy, heq⟩ := h _ _ effect hat
    have hlt := (List.getElem?_eq_some_iff.mp hcopy).1
    rw [copyEffects, hseen]
    cases hslot : slotOf target effect.name (named effect.name earlier).length with
    | none =>
      have hle := slotOf_eq_none.mp hslot
      omega
    | some index =>
      obtain ⟨old, hold, hname, hcount⟩ := slotOf_eq_some hslot
      have hsame := getElem?_filter_countP hold (p := fun other => other.name = effect.name) (decide_eq_true hname)
      rw [hcount] at hsame
      obtain rfl := Option.some.inj (hcopy.symm.trans hsame)
      have hfixed : target.modify index (replaced includeKeyframes effect) = target := by
        refine modify_eq_of_fixed fun other hother => ?_
        obtain rfl := Option.some.inj (hold.symm.trans hother)
        exact heq.symm
      change copyEffects target _ effects (target.modify index (replaced includeKeyframes effect)) _ _ = _
      rw [hfixed]
      exact ih hsource hseen'

/-! ## The operation -/

/-- The name is in scope of a copy: without a list all are. -/
def InScope (names : Option (List String)) (name : String) : Prop := ∀ listed ∈ names, name ∈ listed

/-- The effects of the target after a copy. -/
structure Copied (names : Option (List String)) (includeKeyframes : Bool) (source target result : List Effect) :
    Prop where
  kept : (result.take target.length).map (fun effect => (effect.id, effect.name))
    = target.map fun effect => (effect.id, effect.name)
  untouched : ∀ (i : ℕ) (old : Effect), target[i]? = some old → ¬ InScope names old.name → result[i]? = some old
  added : ∀ new ∈ result.drop target.length, InScope names new.name
  ids : (result.map Effect.id).Nodup
  carried : ∀ (name : String), InScope names name → ∀ (k : ℕ) (effect : Effect), (named name source)[k]? = some effect →
      ∃ copy, (named name result)[k]? = some copy ∧ copy = replaced includeKeyframes effect copy

/-- The effects in scope. -/
def inScope (names : Option (List String)) (effects : List Effect) : List Effect :=
  effects.filter fun effect => names.all fun names => names.contains effect.name

variable {names : Option (List String)}

theorem inScope_iff : (names.all fun names => names.contains name) = true ↔ InScope names name := by
  cases names with
  | none => exact ⟨nofun, fun _ => rfl⟩
  | some listed =>
    rw [Option.all_some, contains_iff_mem]
    exact ⟨fun h _ hmem => Option.some.inj hmem ▸ h, fun h => h listed rfl⟩

theorem mem_inScope : effect ∈ inScope names effects ↔ effect ∈ effects ∧ InScope names effect.name := by
  rw [inScope, mem_filter, inScope_iff]

theorem named_inScope (h : InScope names name) (effects : List Effect) :
    named name (inScope names effects) = named name effects := by
  rw [named, inScope, filter_filter]
  refine filter_congr fun effect _ => ?_
  by_cases hname : effect.name = name
  · rw [hname, inScope_iff.mpr h, Bool.and_true]
  · rw [decide_eq_false hname, Bool.false_and]

theorem inScope_of_named (h : (named name (inScope names effects))[k]? = some effect) : InScope names name := by
  have hmem := mem_of_getElem? h
  rw [named, mem_filter, decide_eq_true_eq] at hmem
  exact hmem.2 ▸ (mem_inScope.mp hmem.1).2

/-- The copy of the effects of the source in scope. -/
theorem Copied.of_copying {source : List Effect}
    (h : Copying target (inScope names source) includeKeyframes result nextId) :
    Copied names includeKeyframes source target result := by
  have hscope {name : String} (hname : name ∈ (inScope names source).map Effect.name) : InScope names name := by
    obtain ⟨effect, heffect, rfl⟩ := mem_map.mp hname
    exact (mem_inScope.mp heffect).2
  refine ⟨h.kept, fun i old hold hname => ?_, fun new hnew => hscope (h.added new hnew), h.ids, ?_⟩
  · exact h.untouched i old hold fun hmem => hname (hscope hmem)
  · intro name hname k effect heffect
    rw [← named_inScope hname] at heffect
    exact h.carried name k effect heffect

/-- Before the first effect is copied. -/
theorem copying_nil (hids : (target.map Effect.id).Nodup) :
    Copying target [] includeKeyframes target ((target.map Effect.id).max?.getD 0) := by
  refine ⟨?_, fun i old hold _ => hold, ?_, ?_, ?_, hids, ?_⟩
  · rw [take_length]
  · rw [drop_length]
    exact forall_mem_nil _
  · intro name
    exact (max_eq_left (Nat.zero_le _)).symm
  · intro name k effect heffect
    cases heffect
  · intro effect heffect
    have hmem := mem_map_of_mem (f := Effect.id) heffect
    cases hmax : (target.map Effect.id).max? with
    | none =>
      rw [max?_eq_none_iff] at hmax
      rw [hmax] at hmem
      cases hmem
    | some last => exact (max?_eq_some_iff.mp hmax).2 _ hmem

variable {doc after : Document} {source target : ClipId}

/-- A clip that carries the effects of another one already is copied to in vain. -/
theorem copyClipAttributes_of_carries {original clip : Clip} (hdistinct : Distinct doc)
    (horiginal : original ∈ doc.clips) (hclip : clip ∈ doc.clips)
    (hnames : all (fun name => refuse ((effectDescriptor name).isNone) (OpError.unknownEffect name)) (names.getD [])
      = .ok ())
    (hcarries : Carries includeKeyframes (inScope names original.effects) clip.effects) :
    copyClipAttributes doc original.id clip.id names includeKeyframes = .ok doc := by
  obtain ⟨sourceTrack, hsourceTrack, hsource⟩ := mem_flatMap.mp horiginal
  obtain ⟨found, hfound, hmem⟩ := mem_flatMap.mp hclip
  obtain ⟨place, hplace⟩ := exists_placeOf hsourceTrack hsource
  obtain ⟨-, hsame, -, -⟩ := hdistinct.placeOf (hdistinct.trackOf hsourceTrack) hsource hplace
  have heffects : copyEffects clip.effects includeKeyframes (inScope names original.effects) clip.effects []
      ((clip.effects.map Effect.id).max?.getD 0) = .ok clip.effects :=
    copyEffects_of_carries hcarries (nil_append _).symm fun _ => rfl
  rw [copyClipAttributes, hplace, ok_bind]
  refine (editClip_of hdistinct hfound hmem (show _ = Except.ok clip from ?_)).trans ?_
  · rw [hnames, ok_bind, hsame]
    exact bind_eq_ok.mpr ⟨clip.effects, heffects, rfl⟩
  · rw [map_swapped_self hdistinct hfound hmem, withClips_self (hdistinct.trackOf hfound)]

/-- What a copy carried over, a second one finds in place, also where a clip is copied to itself. -/
theorem Copied.carries {source target again : List Effect} (h : Copied names includeKeyframes source target result)
    (hagain : again = source ∨ again = result) : Carries includeKeyframes (inScope names again) result := by
  intro name k effect heffect
  have hname := inScope_of_named heffect
  rw [named_inScope hname] at heffect
  rcases hagain with rfl | rfl
  · exact h.carried name hname k effect heffect
  · refine ⟨effect, heffect, ?_⟩
    cases includeKeyframes <;> rfl

/-- An accepted copy carries the effects in scope over, keeps the others and every id, and to make it again changes
nothing. -/
theorem copyClipAttributes_idempotent
    (h : (Operation.copyClipAttributes source target names includeKeyframes).apply doc = .ok after) :
    (Operation.copyClipAttributes source target names includeKeyframes).apply after = .ok after ∧
      ∃ original clip clip', doc.clip source = some original ∧ Edited doc after target clip clip' ∧
        clip' = { clip with effects := clip'.effects } ∧
          Copied names includeKeyframes original.effects clip.effects clip'.effects := by
  obtain ⟨edited, happlied⟩ := applied_of_apply h
  have hkeep : ({ doc, events := [] } : Draft).keep (copyClipAttributes · source target names includeKeyframes)
    = .ok edited := happlied.edits
  have hcopy := keep_eq hkeep
  rw [copyClipAttributes, bind_eq_ok] at hcopy
  obtain ⟨place, hplace, hcopy⟩ := hcopy
  obtain ⟨-, -, found, clip, clip', hfound, hclip, hedit, hedited⟩ := edited_of_editClip happlied hcopy
  obtain ⟨⟨⟩, hnames, hedit⟩ := bind_eq_ok.mp hedit
  obtain ⟨effects, heffects, hedit⟩ := bind_eq_ok.mp hedit
  obtain rfl := Except.ok.inj hedit
  obtain ⟨hedited, hmem⟩ := hedited rfl
  obtain ⟨hsourceTrack, hsourceClip, hsourceId⟩ := mem_of_placeOf hplace
  obtain ⟨duration, stop, hclipValid⟩ := happlied.before.clipValid hfound hclip
  obtain ⟨lastId, hcopying⟩ := (copying_nil hclipValid.effectIds).loop (fun _ => rfl) heffects
  have hcopied := Copied.of_copying hcopying
  have horiginal : doc.clip source = some place.clip := by
    rw [← hsourceId]
    exact happlied.before.fits.clip_eq_some (mem_clips hsourceTrack hsourceClip)
  refine ⟨?_, place.clip, clip, _, horiginal, hedited, rfl, hcopied⟩
  have hdistinct : Distinct after := distinct_of_fits happlied.after.fits
  have hid : clip.id = target := by simpa using find?_some hedited.original
  have hagain : copyClipAttributes after source target names includeKeyframes = .ok after := by
    by_cases hself : source = target
    · have hcarries := hcopied.carries (Or.inr rfl)
      have hcopied := copyClipAttributes_of_carries hdistinct hmem hmem hnames hcarries
      rw [hself, ← hid]
      exact hcopied
    · have hthere : place.clip ∈ after.clips := by
        refine mem_of_otherClips hedited.others (mem_clips hsourceTrack hsourceClip) ?_
        rw [mem_singleton, hsourceId]
        exact hself
      have hcarries := hcopied.carries (Or.inl rfl)
      have hcopied := copyClipAttributes_of_carries hdistinct hthere hmem hnames hcarries
      rw [← hsourceId, ← hid]
      exact hcopied
  exact apply_of_keep (copyClipAttributes · source target names includeKeyframes) (fun _ => rfl) happlied.after hagain happlied.after.recomputeDuration happlied.after

/-- A neutral effect. -/
def plainEffect (id : EffectId) (name : String) (enabled : Bool) : Effect where
  id := id
  name := name
  parameters := .empty
  keyframes := .empty
  enabled := enabled
  enabledCurve := none

/-- A clip with two effects of a name, one of them off, and one with one of them behind another effect. -/
def twoLooks : Document :=
  { Timeline.demoDocument with
    tracks :=
      [{ id := 1
         kind := .video
         syncLock := false
         clips :=
           [{ Timeline.demoClip with
              effects := [plainEffect 1 "brightness" true, plainEffect 2 "brightness" false] },
            { Timeline.demoClip with
              id := 2
              timelineStart := 40
              effects := [plainEffect 7 "opacity" true, plainEffect 3 "brightness" false] }] }]
    duration := 70 }

/-- The effect of the second clip is replaced in place and the other one appended; a second copy finds both. -/
theorem copyClipAttributes_idempotent_twoLooks :
    ∃ after, (Operation.copyClipAttributes 1 2 (some ["brightness"]) true).apply twoLooks = .ok after ∧
      (Operation.copyClipAttributes 1 2 (some ["brightness"]) true).apply after = .ok after ∧
        ∃ original clip clip', twoLooks.clip 1 = some original ∧ Edited twoLooks after 2 clip clip' ∧
          clip' = { clip with effects := clip'.effects } ∧
            Copied (some ["brightness"]) true original.effects clip.effects clip'.effects := by
  obtain ⟨after, hafter⟩ : ∃ after,
      (Operation.copyClipAttributes 1 2 (some ["brightness"]) true).apply twoLooks = .ok after :=
    exists_ok (by decide +kernel)
  exact ⟨after, hafter, copyClipAttributes_idempotent hafter⟩

end Kinewright.Edits
