import Kinewright.Edits.Stills

/-!
# Assumed colours

`operation.rs`: the description that an agent's assumption replaces is recorded, and writing it back undoes the
assumption. The recorded description is the one that was in force when the assumption was made.
-/

namespace Kinewright.Edits

open Fallible Model Option Except Operation Timeline Document

/-! ## Colours that are written -/

/-- The description is an assumption of an agent. -/
abbrev IsAssumption (description : ColorDescription) : Prop := description.provenance = .named .agentAssumption

namespace Coloring

/-- The colour after a write. -/
def write (before : Coloring) (description : ColorDescription) : Coloring where
  description := description
  assumedFrom :=
    if before.assumedFrom = some description then none
    else if IsAssumption description ∧ before.assumedFrom = none then some before.description
    else before.assumedFrom

/-- The write is admitted. -/
def Admits (before : Coloring) (description : ColorDescription) : Prop :=
  (isActor description = true ∨ before.assumedFrom = some description) ∧
    ¬ (isActor description = true ∧ description.confidenceBasisPoints = 0)

variable {before : Coloring} {description recorded : ColorDescription}

/-- A write that clears what was recorded is of that. -/
theorem write_keeps (description : ColorDescription) (h : before.assumedFrom = some recorded) :
    (before.write description).assumedFrom = some recorded ∨ description = recorded := by
  by_cases heq : before.assumedFrom = some description
  · exact .inr (Option.some.inj (heq.symm.trans h))
  · refine .inl ?_
    rw [write]
    have hne : recorded ≠ description := fun hsame => heq (hsame ▸ h)
    simp [h, hne]

/-- Writing back what was recorded clears it. -/
theorem write_recorded (h : before.assumedFrom = some recorded) : before.write recorded = ⟨recorded, none⟩ := by
  rw [write, if_pos h]

/-- What is recorded by a write was in force, and the write is an assumption. -/
theorem write_records (hnone : before.assumedFrom = none) (h : (before.write description).assumedFrom = some recorded) :
    IsAssumption description ∧ before.description = recorded := by
  rw [write] at h
  simp only [hnone, reduceCtorEq, if_false, and_true] at h
  by_cases hassumption : IsAssumption description
  · rw [if_pos hassumption] at h
    exact ⟨hassumption, Option.some.inj h⟩
  · rw [if_neg hassumption] at h
    cases h

end Coloring

variable {doc before start after : Document} {draft next : Draft} {id : AssetId} {asset : MediaAsset}
  {description recorded : ColorDescription} {operation : Operation}

/-! ## What an operation does to a colour -/

/-- Operations that write no colour. -/
abbrev noColor : Allowed where
  binds _ _ := True
  recolors := False
  makes := True
  removes := True

theorem colorsKept_step (h : Step noColor draft next) : ColorsKept draft.doc next.doc := by
  cases h with
  | keep _ hcolors _ => exact hcolors
  | recolor _ _ hrecolors => exact hrecolors.elim
  | make made hid hgains _ _ => exact colorsKept_of_eq hgains.mediaPool
  | remove removed hpool _ _ | rebind _ _ _ _ hpool _ _ _ _ => exact colorsKept_of_eq hpool

theorem colorsKept_steps (h : Steps noColor draft next) : ColorsKept draft.doc next.doc := by
  induction h with
  | refl => exact colorsKept_of_eq rfl
  | tail _ hstep ih =>
    intro id media hmedia
    obtain ⟨media', hmedia', hsame⟩ := ih id media hmedia
    obtain ⟨media'', hmedia'', hsame'⟩ := colorsKept_step hstep id media' hmedia'
    exact ⟨media'', hmedia'', hsame'.trans hsame⟩

/-- The asset of the id is changed, and no other one. -/
theorem asset_describeColor (hpool : after.mediaPool
      = doc.mediaPool.modifyFirst (fun other => other.id = id) (describeColor · description))
    {other : AssetId} (hasset : doc.asset other = some asset) :
    ∃ asset', after.asset other = some asset' ∧
      coloring asset' = if other = id then (coloring asset).write description else coloring asset := by
  have hid (found : MediaAsset) : (describeColor found description).id = found.id := rfl
  rw [Document.asset] at hasset ⊢
  rw [hpool, List.find?_modifyFirst_key hid, hasset]
  refine ⟨_, rfl, ?_⟩
  dsimp only
  by_cases heq : other = id
  · rw [if_pos heq, if_pos heq]
    rfl
  · rw [if_neg heq, if_neg heq]

/-- What the edit of a colour asks, and what it leaves. -/
theorem setAssetColorDescription_ok (h : setAssetColorDescription doc id description = .ok after) :
    (∃ asset, doc.asset id = some asset ∧ (coloring asset).Admits description) ∧ after = { doc with
        mediaPool := doc.mediaPool.modifyFirst (fun other => other.id = id) (describeColor · description) } := by
  simp only [setAssetColorDescription, bind_eq_ok, okOr_eq_ok, refuse_eq_ok, ok.injEq] at h
  obtain ⟨asset, hasset, _, -, _, hadmits, _, hconfidence, rfl⟩ := h
  refine ⟨⟨asset, hasset, ?_, hconfidence⟩, rfl⟩
  by_cases hactor : isActor description = true
  · exact .inl hactor
  · refine .inr ?_
    by_contra hrevert
    exact hadmits ⟨by simpa using hactor, hrevert⟩

/-- The colour of the asset of the id. -/
def colorOf (doc : Document) (id : AssetId) : Option Coloring := (doc.asset id).map coloring

/-- A write that is accepted was admitted, and writes the one colour. -/
theorem applied_recolor (h : applied doc (.setAssetColorDescription id description) = some after) :
    (∃ color, colorOf doc id = some color ∧ color.Admits description) ∧ ∀ other color, colorOf doc other = some color →
        colorOf after other = some (if other = id then color.write description else color) := by
  obtain ⟨-, draft, hstep, rfl⟩ := applied_step h
  obtain ⟨edited, hedited, hcandidate, -, -⟩ := step_ok hstep
  rw [Operation.draft, edit, Draft.keep, bind_eq_ok] at hedited
  obtain ⟨recolored, hrecolored, hedited⟩ := hedited
  obtain rfl := ok.inj hedited
  have hkept := recomputeDuration_kept draft.doc hcandidate
  obtain ⟨⟨found, hfound, hadmits⟩, rfl⟩ := setAssetColorDescription_ok hrecolored
  refine ⟨⟨coloring found, by rw [colorOf, hfound]; rfl, hadmits⟩, fun other color hcolor => ?_⟩
  rw [colorOf, map_eq_some_iff] at hcolor
  obtain ⟨asset, hasset, rfl⟩ := hcolor
  obtain ⟨asset', hasset', hcolor⟩ := asset_describeColor hkept.mediaPool hasset
  rw [colorOf, hasset', ← hcolor]
  rfl

variable {color : Coloring}

/-- An operation keeps the colour of an asset, or writes it. -/
theorem applied_color (h : applied doc operation = some after) (hcolor : colorOf doc id = some color) :
    colorOf after id = some color ∨ ∃ description, operation = .setAssetColorDescription id description ∧
      color.Admits description ∧ colorOf after id = some (color.write description) := by
  by_cases hrecolors : operation.recolors
  · cases operation with
    | setAssetColorDescription written description =>
      obtain ⟨⟨color', hcolor', hadmits⟩, hwrites⟩ := applied_recolor h
      have hafter := hwrites id color hcolor
      by_cases heq : id = written
      · subst heq
        obtain rfl := Option.some.inj (hcolor'.symm.trans hcolor)
        rw [if_pos rfl] at hafter
        exact .inr ⟨description, rfl, hadmits, hafter⟩
      · rw [if_neg heq] at hafter
        exact .inl hafter
    | _ => exact hrecolors.elim
  · obtain ⟨-, draft, hstep, rfl⟩ := applied_step h
    have hsteps : Steps noColor { doc, events := [] } draft :=
      steps_step (fun _ _ => trivial) hrecolors (fun _ => trivial) (fun _ => trivial) hstep
    rw [colorOf, map_eq_some_iff] at hcolor
    obtain ⟨asset, hasset, rfl⟩ := hcolor
    obtain ⟨asset', hasset', hsame⟩ := colorsKept_steps hsteps id asset hasset
    exact .inl (by rw [colorOf, hasset', ← hsame]; rfl)

/-! ## A write that is accepted -/

theorem validateAsset_describeColor (hvalid : validateAsset coreChecks asset = .ok ())
    (hdescription : validateColorDescription description = .ok ()) :
    validateAsset coreChecks (describeColor asset description) = .ok () := by
  rw [validateAsset, unless_eq_ok, unless_eq_ok] at hvalid ⊢
  obtain ⟨hfps, hduration, hdata⟩ := hvalid
  refine ⟨hfps, hduration, ?_⟩
  simp only [coreChecks, validateAssetData, bind_eq_ok] at hdata ⊢
  obtain ⟨_, hresolution, _, hfingerprint, _, hcolor, hassumed⟩ := hdata
  refine ⟨_, hresolution, _, hfingerprint, (), hdescription, ?_⟩
  rw [all_eq_ok] at hassumed ⊢
  intro recorded hrecorded
  rw [describeColor] at hrecorded
  split at hrecorded
  · cases hrecorded
  · split at hrecorded
    · obtain rfl := List.mem_singleton.mp hrecorded
      exact hcolor
    · exact hassumed recorded hrecorded

theorem validatePool_describeColor {seen : List AssetId} {pool : List MediaAsset}
    (hvalid : validatePool coreChecks seen pool = .ok ())
    (hdescription : validateColorDescription description = .ok ()) :
    validatePool coreChecks seen
      (pool.modifyFirst (fun other => other.id = id) (describeColor · description)) = .ok () := by
  induction pool generalizing seen with
  | nil => exact hvalid
  | cons first pool ih =>
    rw [validatePool, unless_eq_ok, bind_eq_ok] at hvalid
    obtain ⟨hfresh, ⟨⟩, hasset, hrest⟩ := hvalid
    rw [List.modifyFirst]
    split
    · rw [validatePool, unless_eq_ok, bind_eq_ok]
      exact ⟨hfresh, (), validateAsset_describeColor hasset hdescription, hrest⟩
    · rw [validatePool, unless_eq_ok, bind_eq_ok]
      exact ⟨hfresh, (), hasset, ih hrest⟩

/-- A colour changes no footage. -/
theorem sameFootage_describeColor : SameFootage doc { doc with
    mediaPool := doc.mediaPool.modifyFirst (fun other => other.id = id) (describeColor · description) } := by
  have hid (found : MediaAsset) : (describeColor found description).id = found.id := rfl
  refine ⟨rfl, rfl, fun other => ?_⟩
  rw [Document.asset]
  rw [List.find?_modifyFirst_key hid, map_map]
  split
  · rfl
  · rfl

theorem valid_describeColor (hvalid : doc.Valid) (hdescription : validateColorDescription description = .ok ()) :
    Valid { doc with
      mediaPool := doc.mediaPool.modifyFirst (fun other => other.id = id) (describeColor · description) } := by
  have hsame : SameFootage doc { doc with
      mediaPool := doc.mediaPool.modifyFirst (fun other => other.id = id)
        (describeColor · description) } := sameFootage_describeColor
  obtain ⟨clipIds, htracks⟩ := hvalid.tracks
  have hpool := hvalid.pool
  simp only [coreChecks, bind_eq_ok] at hpool
  obtain ⟨⟨⟩, hluts, hcatalog⟩ := hpool
  exact
    { fps := hvalid.fps
      project := hvalid.project
      mediaPool := validatePool_describeColor hvalid.mediaPool hdescription
      pool := bind_eq_ok.mpr ⟨(), hluts, (hsame.validateCatalog rfl).trans hcatalog⟩
      tracks := ⟨clipIds, (hsame.validateTracks _ _ _).trans htracks⟩
      markers := hvalid.markers
      mix := hvalid.mix }

/-- A write that is admitted is accepted. -/
theorem applied_of_admits (hvalid : doc.Valid) (hasset : doc.asset id = some asset)
    (hdescription : validateColorDescription description = .ok ())
    (hadmits : (coloring asset).Admits description) :
    ∃ after, applied doc (.setAssetColorDescription id description) = some after := by
  have hafter : Valid { doc with
      mediaPool := doc.mediaPool.modifyFirst (fun other => other.id = id)
        (describeColor · description) } := valid_describeColor hvalid hdescription
  have hedit : setAssetColorDescription doc id description = .ok { doc with
      mediaPool := doc.mediaPool.modifyFirst (fun other => other.id = id)
        (describeColor · description) } := by
    simp only [setAssetColorDescription, bind_eq_ok, okOr_eq_ok, refuse_eq_ok]
    refine ⟨asset, hasset, (), hdescription, (), ?_, (), hadmits.2, trivial⟩
    rintro ⟨hactor, hrevert⟩
    rcases hadmits.1 with hactor' | hrevert'
    · simp [hactor] at hactor'
    · exact hrevert hrevert'
  have hok : (Operation.setAssetColorDescription id description).apply doc = .ok { doc with
      mediaPool := doc.mediaPool.modifyFirst (fun other => other.id = id)
        (describeColor · description) } := by
    simp only [apply, step, Operation.draft, edit, Draft.keep, bind_eq_ok, ok.injEq]
    refine ⟨(), valid_iff.mp hvalid, ⟨_, []⟩, ⟨_, ⟨_, hedit, rfl⟩, ?_⟩, rfl⟩
    exact ⟨_, hafter.recomputeDuration, (), valid_iff.mp hafter, rfl⟩
  exact ⟨_, by rw [applied, hok]; rfl⟩

/-! ## Trails -/

/-- The operations that were accepted, each with the document before it. -/
abbrev Log := List (Document × Operation)

/-- The description was in force right before the first assumption since nothing was recorded. -/
def Recorded (id : AssetId) (log : Log) (recorded : ColorDescription) : Prop :=
  ∃ earlier later before assumption,
    log = earlier ++ (before, Operation.setAssetColorDescription id assumption) :: later ∧
      IsAssumption assumption ∧ colorOf before id = some ⟨recorded, none⟩ ∧
      ∀ entry ∈ later, ∃ color, colorOf entry.1 id = some color ∧ color.assumedFrom ≠ none

/-- What is recorded for the asset can be written back, and nothing else changes it. -/
def Revertible (id : AssetId) (log : Log) (doc : Document) : Prop :=
  ∃ color, colorOf doc id = some color ∧ ∀ recorded, color.assumedFrom = some recorded → Recorded id log recorded ∧
    (∃ after, applied doc (.setAssetColorDescription id recorded) = some after ∧
      colorOf after id = some ⟨recorded, none⟩) ∧
    ∀ operation after, applied doc operation = some after →
      (∃ color', colorOf after id = some color' ∧ color'.assumedFrom = some recorded) ∨
        operation = .setAssetColorDescription id recorded

/-- Whoever wrote the description was sure of it. -/
def IsSure (description : ColorDescription) : Prop :=
  ¬ (isActor description = true ∧ description.confidenceBasisPoints = 0)

/-- What is in force or recorded for the asset can be written. -/
structure Writable (id : AssetId) (log : Log) (doc : Document) : Prop where
  valid : doc.Valid
  color : ∃ color, colorOf doc id = some color ∧ IsSure color.description ∧
    ∀ recorded, color.assumedFrom = some recorded → IsSure recorded ∧ Recorded id log recorded

variable {log : Log}

/-- An operation adds to the log, as long as something stays recorded. -/
theorem Recorded.snoc (h : Recorded id log recorded) (hcolor : colorOf doc id = some color)
    (hassumed : color.assumedFrom ≠ none) : Recorded id (log ++ [(doc, operation)]) recorded := by
  obtain ⟨earlier, later, before, assumption, rfl, hassumption, hbefore, hlater⟩ := h
  refine ⟨earlier, later ++ [(doc, operation)], before, assumption, by simp, hassumption, hbefore, ?_⟩
  intro entry hentry
  rcases List.mem_append.mp hentry with hentry | hentry
  · exact hlater entry hentry
  · obtain rfl := List.mem_singleton.mp hentry
    exact ⟨color, hcolor, hassumed⟩

theorem valid_of_applied (h : applied doc operation = some after) : after.Valid := by
  obtain ⟨-, draft, hstep, rfl⟩ := applied_step h
  obtain ⟨edited, -, -, -, hvalid⟩ := step_ok hstep
  exact hvalid

theorem Writable.step (hwritable : Writable id log doc) (h : applied doc operation = some after) :
    Writable id (log ++ [(doc, operation)]) after := by
  obtain ⟨color, hcolor, hsure, hrecorded⟩ := hwritable.color
  refine ⟨valid_of_applied h, ?_⟩
  have hkeeps (recorded : ColorDescription) (heq : color.assumedFrom = some recorded) :
      IsSure recorded ∧ Recorded id (log ++ [(doc, operation)]) recorded := by
    obtain ⟨hsure, hrecorded⟩ := hrecorded recorded heq
    exact ⟨hsure, hrecorded.snoc hcolor (by simp [heq])⟩
  rcases applied_color h hcolor with hafter | ⟨description, rfl, hadmits, hafter⟩
  · exact ⟨color, hafter, hsure, hkeeps⟩
  · refine ⟨color.write description, hafter, hadmits.2, fun recorded heq => ?_⟩
    cases hassumed : color.assumedFrom with
    | none =>
      -- The first assumption: what was in force is recorded.
      obtain ⟨hassumption, rfl⟩ := Coloring.write_records hassumed heq
      have hbefore : colorOf doc id = some ⟨color.description, none⟩ := by rw [hcolor, ← hassumed]
      exact ⟨hsure, log, [], doc, description, rfl, hassumption, hbefore, by simp⟩
    | some earlier =>
      rcases Coloring.write_keeps description hassumed with hkept | rfl
      · obtain rfl := Option.some.inj (hkept.symm.trans heq)
        exact hkeeps earlier hassumed
      · rw [Coloring.write_recorded hassumed] at heq
        cases heq

/-- The assets of a valid pool are valid. -/
theorem validateAsset_of_mem {seen : List AssetId} {pool : List MediaAsset}
    (hvalid : validatePool coreChecks seen pool = .ok ()) (hmem : asset ∈ pool) :
    validateAsset coreChecks asset = .ok () := by
  induction pool generalizing seen with
  | nil => cases hmem
  | cons first pool ih =>
    rw [validatePool, unless_eq_ok, bind_eq_ok] at hvalid
    obtain ⟨-, ⟨⟩, hfirst, hrest⟩ := hvalid
    rcases List.mem_cons.mp hmem with rfl | hmem
    · exact hfirst
    · exact ih hrest hmem

/-- The description that is recorded in a valid document is valid. -/
theorem validate_of_recorded (hvalid : doc.Valid) (hcolor : colorOf doc id = some color)
    (hassumed : color.assumedFrom = some recorded) : validateColorDescription recorded = .ok () := by
  rw [colorOf, map_eq_some_iff] at hcolor
  obtain ⟨asset, hasset, rfl⟩ := hcolor
  have hmem : asset ∈ doc.mediaPool := List.mem_of_find?_eq_some hasset
  have hasset := validateAsset_of_mem hvalid.mediaPool hmem
  rw [validateAsset, unless_eq_ok, unless_eq_ok] at hasset
  obtain ⟨-, -, hdata⟩ := hasset
  simp only [coreChecks, validateAssetData, bind_eq_ok] at hdata
  obtain ⟨_, -, _, -, _, -, hrecorded⟩ := hdata
  rw [all_eq_ok] at hrecorded
  exact hrecorded recorded (mem_toList.mpr hassumed)

theorem Writable.revertible (h : Writable id log doc) : Revertible id log doc := by
  obtain ⟨color, hcolor, -, hrecorded⟩ := h.color
  refine ⟨color, hcolor, fun recorded hassumed => ?_⟩
  obtain ⟨hsure, hrecorded⟩ := hrecorded recorded hassumed
  refine ⟨hrecorded, ?_, fun operation after happlied => ?_⟩
  · have hdescription := validate_of_recorded h.valid hcolor hassumed
    obtain ⟨asset, hasset, rfl⟩ := map_eq_some_iff.mp hcolor
    obtain ⟨after, happlied⟩ := applied_of_admits h.valid hasset hdescription ⟨.inr hassumed, hsure⟩
    refine ⟨after, happlied, ?_⟩
    have hwrites := (applied_recolor happlied).2 id (coloring asset) hcolor
    rw [if_pos rfl] at hwrites
    rw [hwrites, Coloring.write_recorded hassumed]
  · rcases applied_color happlied hcolor with hafter | ⟨description, rfl, -, hafter⟩
    · exact .inl ⟨color, hafter, hassumed⟩
    · rcases Coloring.write_keeps description hassumed with hkept | rfl
      · exact .inl ⟨_, hafter, hkept⟩
      · exact .inr rfl

/-! ## An asset that is added -/

/-- The asset is added as it is. -/
theorem applied_addAsset (h : applied before (.addAsset asset) = some start) :
    colorOf start asset.id = some ⟨asset.colorDescription, none⟩ ∧ ¬ IsAssumption asset.colorDescription ∧
      validateColorDescription asset.colorDescription = .ok () := by
  obtain ⟨-, draft, hstep, rfl⟩ := applied_step h
  obtain ⟨edited, hedited, hcandidate, -, -⟩ := step_ok hstep
  rw [Operation.draft, edit, Draft.keep, bind_eq_ok] at hedited
  obtain ⟨added, hadded, hedited⟩ := hedited
  obtain rfl := ok.inj hedited
  simp only [addAsset, bind_eq_ok, refuse_eq_ok, ok.injEq] at hadded
  obtain ⟨_, hfresh, _, hassumed, _, hassumption, ⟨⟩, hasset, rfl⟩ := hadded
  have hkept := recomputeDuration_kept draft.doc hcandidate
  refine ⟨?_, hassumption, ?_⟩
  · rw [Bool.not_eq_true, isSome_eq_false_iff, isNone_iff_eq_none, Document.asset] at hfresh
    rw [colorOf, Document.asset, hkept.mediaPool]
    rw [List.find?_append, hfresh, none_or, List.find?_singleton, if_pos (decide_eq_true rfl),
      map_some, coloring, not_isSome_iff_eq_none.mp hassumed]
  · rw [validateAsset, unless_eq_ok, unless_eq_ok] at hasset
    obtain ⟨-, -, hdata⟩ := hasset
    simp only [coreChecks, validateAssetData, bind_eq_ok] at hdata
    obtain ⟨_, -, _, -, _, hdescription, -⟩ := hdata
    exact hdescription

/-- An assumption over a description that nobody is sure of. -/
theorem exists_assumption (hvalid : start.Valid) (hcolor : colorOf start id = some color)
    (hnone : color.assumedFrom = none) :
    ∃ assumption after, applied start (.setAssetColorDescription id assumption) = some after ∧
      colorOf after id = some ⟨assumption, some color.description⟩ := by
  obtain ⟨asset, hasset, rfl⟩ := map_eq_some_iff.mp hcolor
  let assumption : ColorDescription :=
    { asset.colorDescription with confidenceBasisPoints := 1, provenance := .named .agentAssumption }
  have hassumption : IsAssumption assumption := rfl
  have hactor : isActor assumption = true := by simp [isActor, assumption]
  have hone : (1 : UInt16) ≠ 0 := by decide
  have hadmits : (coloring asset).Admits assumption := ⟨.inl hactor, fun h => hone h.2⟩
  have hconfidence : ¬ (10000 : UInt16) < 1 := by decide
  have hdescription : validateColorDescription assumption = .ok () := refuse_eq_ok.mpr hconfidence
  obtain ⟨after, happlied⟩ := applied_of_admits hvalid hasset hdescription hadmits
  refine ⟨assumption, after, happlied, ?_⟩
  have hwrites := (applied_recolor happlied).2 id (coloring asset) hcolor
  rw [hwrites, Coloring.write]
  simp [hnone, hassumption]

/-- Whatever is recorded for an added asset can be written back, exactly if it was not added as an override
that nobody is sure of. -/
theorem revertible_iff (h : applied before (.addAsset asset) = some start) :
    (∀ log doc, Runs.Trail applied start log doc → Revertible asset.id log doc) ↔
      ¬ (asset.colorDescription.provenance = .named .userOverride ∧
        asset.colorDescription.confidenceBasisPoints = 0) := by
  obtain ⟨hcolor, hassumption, hdescription⟩ := applied_addAsset h
  have hvalid := valid_of_applied h
  constructor
  · rintro hrevertible ⟨hoverride, hzero⟩
    obtain ⟨assumption, after, happlied, hafter⟩ := exists_assumption hvalid hcolor rfl
    obtain ⟨color, hcolor', hrevert⟩ := hrevertible _ after (.step _ .refl happlied)
    obtain rfl := Option.some.inj (hcolor'.symm.trans hafter)
    obtain ⟨-, ⟨reverted, hreverted, -⟩, -⟩ := hrevert asset.colorDescription rfl
    obtain ⟨⟨_, -, hadmits⟩, -⟩ := applied_recolor hreverted
    exact hadmits.2 ⟨by simp [isActor, hoverride], hzero⟩
  · intro hsure log doc htrail
    have hstart : Writable asset.id [] start := by
      refine ⟨hvalid, ⟨asset.colorDescription, none⟩, hcolor, ?_, fun recorded heq => ?_⟩
      · rintro ⟨hactor, hzero⟩
        rcases Bool.or_eq_true_iff.mp hactor with hoverride | hagent
        · exact hsure ⟨of_decide_eq_true hoverride, hzero⟩
        · exact hassumption (of_decide_eq_true hagent)
      · cases heq
    exact (htrail.invariant (fun _ _ _ _ => Writable.step) hstart).revertible

/-- The still of the demo, added as it is imported. -/
theorem revertible_iff_still : ∃ start, applied demoDocument (.addAsset still) = some start ∧
    ∀ log doc, Runs.Trail applied start log doc → Revertible 2 log doc := by
  obtain ⟨start, happlied⟩ : ∃ start, applied demoDocument (.addAsset still) = some start :=
    isSome_iff_exists.mp (by decide +kernel)
  exact ⟨start, happlied, (revertible_iff happlied).mpr (by decide)⟩

/-- An override that nobody is sure of. -/
def unsure : ColorDescription := { demoColor with confidenceBasisPoints := 0, provenance := .named .userOverride }

/-- What an agent assumes over it. -/
def assumption : ColorDescription := { unsure with confidenceBasisPoints := 1, provenance := .named .agentAssumption }

/-- The override is recorded by the assumption, and refused when it is written back. -/
theorem override_not_reverted : ∃ start after,
    applied demoDocument (.addAsset { still with colorDescription := unsure }) = some start ∧
      Runs.Trail applied start [(start, .setAssetColorDescription 2 assumption)] after ∧
      ¬ Revertible 2 [(start, .setAssetColorDescription 2 assumption)] after := by
  let added := applied demoDocument (.addAsset { still with colorDescription := unsure })
  let assumed := added.bind (applied · (.setAssetColorDescription 2 assumption))
  have hstranded : assumed.any (fun after => decide (colorOf after 2 = some ⟨assumption, some unsure⟩) &&
      (applied after (.setAssetColorDescription 2 unsure)).isNone) = true := by decide +kernel
  obtain ⟨after, hassumed, hafter⟩ := (any_eq_true _ _).mp hstranded
  obtain ⟨start, hstart, hassumed⟩ := bind_eq_some_iff.mp hassumed
  refine ⟨start, after, hstart, .step _ .refl hassumed, ?_⟩
  rintro ⟨color, hcolor, hrevert⟩
  rw [Bool.and_eq_true, decide_eq_true_eq] at hafter
  obtain rfl := Option.some.inj (hcolor.symm.trans hafter.1)
  obtain ⟨-, ⟨reverted, hreverted, -⟩, -⟩ := hrevert unsure rfl
  rw [hreverted] at hafter
  cases hafter.2

end Kinewright.Edits
