import Mathlib.Data.List.Sort
import Mathlib.Data.List.Dedup

/-!
# Documents, operations and atomic batches

The part of `model.rs` and `operation.rs` that the history engine runs: the clip identities of a
document, the legacy effect names that are rewritten before an operation is recorded, and
`apply_batch_inner`, which validates every intermediate document of a batch.

The engine never looks into the rest of a document or of an operation. Those parts are the fields of
a `Payload`, and the edit rules themselves (`apply_unchecked`, `recompute_duration`,
`validate_document`) are the functions of a `Rules` instance; every result below holds for all of
them.
-/

namespace Kinewright.Core

/-- `ClipId(u64)`. -/
abbrev ClipId := ℕ

/-- `TrackId(u64)`. -/
abbrev TrackId := ℕ

/-- `TimeCode(i64)`, in frames. -/
abbrev TimeCode := ℤ

/-- The types of the data that documents and operations carry and the engine only copies and
compares. -/
structure Payload where
  /-- An effect's fields beside its name. -/
  Effect : Type
  /-- A clip's fields beside its id. -/
  Clip : Type
  /-- A track's fields beside its clips. -/
  Track : Type
  /-- A document's fields beside its tracks. -/
  Document : Type
  /-- The operations that carry no effect to rewrite and are not a split. -/
  Operation : Type
  /-- The causes of a refused edit. -/
  OpError : Type
  [decEffect : DecidableEq Effect]
  [decClip : DecidableEq Clip]
  [decTrack : DecidableEq Track]
  [decDocument : DecidableEq Document]
  [decOperation : DecidableEq Operation]
  [decOpError : DecidableEq OpError]

attribute [instance] Payload.decEffect Payload.decClip Payload.decTrack Payload.decDocument
  Payload.decOperation Payload.decOpError

variable {P : Payload}

/-! ## Documents -/

structure Effect (P : Payload) where
  name : String
  rest : P.Effect
deriving DecidableEq

structure Clip (P : Payload) where
  id : ClipId
  rest : P.Clip
deriving DecidableEq

structure Track (P : Payload) where
  clips : List (Clip P)
  rest : P.Track
deriving DecidableEq

structure Document (P : Payload) where
  tracks : List (Track P)
  rest : P.Document
deriving DecidableEq

/-- Every clip of the document, in track order. -/
def Document.clips (doc : Document P) : List (Clip P) :=
  doc.tracks.flatMap Track.clips

/-- `Document::clip`: the first clip with this id. -/
def Document.clip (doc : Document P) (id : ClipId) : Option (Clip P) :=
  doc.clips.find? (·.id = id)

/-- `clip_identities`, a `BTreeSet`: the clip ids in ascending order, each once. -/
def clipIdentities (doc : Document P) : List ClipId := ((doc.clips.map Clip.id).insertionSort (· ≤ ·)).dedup

/-! ## Operations -/

/-- An edit of the document. The four operations that the history engine looks into are spelled out;
`other` is any of the remaining ones. -/
inductive Operation (P : Payload)
  | addEffect (clip : ClipId) (effect : Effect P)
  | insertEffect (clip : ClipId) (index : ℕ) (effect : Effect P)
  | addAdjustmentClip (track : TrackId) (timelineStart duration : TimeCode) (effects : List (Effect P))
  | splitClip (clip : ClipId) (at_ : TimeCode)
  | other (operation : P.Operation)
deriving DecidableEq

/-- `canonicalize_legacy_color_grade_name`. -/
def canonicalizeLegacyColorGradeName (name : String) : String :=
  if name = "color_grade" then "primary_correction" else name

/-- `Effect::canonicalize_legacy_name`. -/
def Effect.canonicalizeLegacyName (effect : Effect P) : Effect P :=
  { effect with name := canonicalizeLegacyColorGradeName effect.name }

/-- `Operation::canonicalize_legacy_effect_names`: what the history and the journal record. -/
def Operation.canonicalizeLegacyEffectNames : Operation P → Operation P
  | .addEffect clip effect => .addEffect clip effect.canonicalizeLegacyName
  | .insertEffect clip index effect => .insertEffect clip index effect.canonicalizeLegacyName
  | .addAdjustmentClip track timelineStart duration effects =>
    .addAdjustmentClip track timelineStart duration (effects.map Effect.canonicalizeLegacyName)
  | operation => operation

theorem canonicalizeLegacyColorGradeName_idem (name : String) :
    canonicalizeLegacyColorGradeName (canonicalizeLegacyColorGradeName name)
      = canonicalizeLegacyColorGradeName name := by
  unfold canonicalizeLegacyColorGradeName
  by_cases h : name = "color_grade"
  · rw [if_pos h, if_neg (by decide)]
  · rw [if_neg h, if_neg h]

@[simp] theorem Effect.canonicalizeLegacyName_idem (effect : Effect P) :
    effect.canonicalizeLegacyName.canonicalizeLegacyName = effect.canonicalizeLegacyName := by
  simp [Effect.canonicalizeLegacyName, canonicalizeLegacyColorGradeName_idem]

/-- A recorded operation is already canonical, so replaying it records it again unchanged. -/
@[simp] theorem Operation.canonicalizeLegacyEffectNames_idem (operation : Operation P) :
    operation.canonicalizeLegacyEffectNames.canonicalizeLegacyEffectNames
      = operation.canonicalizeLegacyEffectNames := by
  cases operation <;> simp [canonicalizeLegacyEffectNames]

@[simp] theorem map_canonicalizeLegacyEffectNames_idem (operations : List (Operation P)) :
    (operations.map Operation.canonicalizeLegacyEffectNames).map Operation.canonicalizeLegacyEffectNames
      = operations.map Operation.canonicalizeLegacyEffectNames := by
  rw [List.map_map]
  exact List.map_congr_left fun operation _ => operation.canonicalizeLegacyEffectNames_idem

/-! ## Applying operations -/

/-- The edit rules: what one operation does to a document, and which documents are valid. A rule
that fails leaves its candidate document to be dropped. -/
class Rules (P : Payload) where
  applyUnchecked : Operation P → Document P → Except P.OpError (Document P)
  recomputeDuration : Document P → Except P.OpError (Document P)
  validateDocument : Document P → Except P.OpError Unit

export Rules (applyUnchecked recomputeDuration validateDocument)

variable [Rules P]

/-- A document that `validate_document` accepts. -/
def Document.Valid (doc : Document P) : Prop := validateDocument doc = .ok ()

/-- One step of a batch: apply, recompute the duration, validate the result. -/
def applyValidated (operation : Operation P) (candidate : Document P) : Except P.OpError (Document P) := do
  let candidate ← applyUnchecked operation candidate
  let candidate ← recomputeDuration candidate
  validateDocument candidate
  return candidate

/-- `Operation::apply`. -/
def Operation.apply (operation : Operation P) (doc : Document P) : Except P.OpError (Document P) := do
  validateDocument doc
  applyValidated operation doc

/-- `Operation::apply`, folded over a list of operations in order. -/
def applyAll (operations : List (Operation P)) (doc : Document P) : Except P.OpError (Document P) :=
  operations.foldlM (fun doc operation => operation.apply doc) doc

inductive BatchError (P : Payload)
  | empty
  /-- `opNumber` is one-based. -/
  | operationFailed (opNumber : ℕ) (error : P.OpError)
deriving DecidableEq

/-- What one operation did to the clip identities. -/
structure OperationIdentityEffect (P : Payload) where
  created : List ClipId
  deleted : List ClipId
  retained : List ClipId
  splitParent : Option (Clip P)
  splitResults : List (Clip P)
deriving DecidableEq

/-- `identity_effect`. -/
def identityEffect (before : List ClipId) (after : Document P) (splitParent : Option (Clip P)) :
    OperationIdentityEffect P :=
  let splitResults := match splitParent with
    | none => []
    | some parent => after.clips.filter fun clip => clip.id = parent.id ∨ clip.id ∉ before
  let after := clipIdentities after
  { created := after.filter (· ∉ before)
    deleted := before.filter (· ∉ after)
    retained := before.filter (· ∈ after)
    splitParent
    splitResults }

/-- The clip that a split is about to replace. -/
def splitParentOf (captureIdentities : Bool) (operation : Operation P) (candidate : Document P) : Option (Clip P) :=
  match captureIdentities, operation with
  | true, .splitClip clip _ => candidate.clip clip
  | _, _ => none

/-- The loop of `apply_batch_inner` over the operations from number `index` on. -/
def applyBatchLoop (captureIdentities : Bool) (index : ℕ) (candidate : Document P)
    (effects : List (OperationIdentityEffect P)) :
    List (Operation P) → Except (BatchError P) (Document P × List (OperationIdentityEffect P))
  | [] => .ok (candidate, effects)
  | operation :: operations => match applyValidated operation candidate with
    | .error error => .error (.operationFailed index error)
    | .ok next => let effects := if captureIdentities then
          effects ++ [identityEffect (clipIdentities candidate) next
            (splitParentOf captureIdentities operation candidate)]
        else effects
      applyBatchLoop captureIdentities (index + 1) next effects operations

/-- `apply_batch_inner`: the document after the whole batch, and what each operation did to the clip
identities when they are captured. -/
def applyBatchInner (doc : Document P) (operations : List (Operation P)) (captureIdentities : Bool) :
    Except (BatchError P) (Document P × List (OperationIdentityEffect P)) :=
  if operations.isEmpty then .error .empty
  else match validateDocument doc with
    | .error error => .error (.operationFailed 1 error)
    | .ok () => applyBatchLoop captureIdentities 1 doc [] operations

/-- `apply_batch_observed`. -/
def applyBatchObserved (doc : Document P) (operations : List (Operation P)) :
    Except (BatchError P) (Document P × List (OperationIdentityEffect P)) :=
  applyBatchInner doc operations true

/-! ## A batch is its operations, one after another -/

variable {doc after : Document P}

theorem applyValidated_valid {operation : Operation P}
    (h : applyValidated operation doc = .ok after) : after.Valid := by
  unfold applyValidated at h
  cases h₁ : applyUnchecked operation doc with
  | error => simp [h₁, bind, Except.bind] at h
  | ok d₁ =>
    cases h₂ : recomputeDuration d₁ with
    | error => simp [h₁, h₂, bind, Except.bind] at h
    | ok d₂ =>
      cases h₃ : validateDocument d₂ with
      | error => simp [h₁, h₂, h₃, bind, Except.bind] at h
      | ok u =>
        simp only [h₁, h₂, h₃, bind, Except.bind, pure, Except.pure, Except.ok.injEq] at h
        exact h ▸ h₃

theorem apply_of_valid (h : doc.Valid) (operation : Operation P) :
    operation.apply doc = applyValidated operation doc := by
  rw [Operation.apply, show validateDocument doc = .ok () from h]
  rfl

@[simp] theorem applyAll_nil (doc : Document P) : applyAll [] doc = .ok doc := rfl

theorem applyAll_cons (operation : Operation P) (operations : List (Operation P)) (doc : Document P) :
    applyAll (operation :: operations) doc = (operation.apply doc).bind (applyAll operations) := rfl

/-- Folding two lists in a row is folding their concatenation. -/
theorem applyAll_append {xs ys : List (Operation P)} {mid : Document P}
    (hx : applyAll xs doc = .ok mid) (hy : applyAll ys mid = .ok after) :
    applyAll (xs ++ ys) doc = .ok after := by
  induction xs generalizing doc with
  | nil => rw [applyAll_nil, Except.ok.injEq] at hx; rw [hx]; exact hy
  | cons x xs ih =>
    rw [applyAll_cons] at hx
    rw [List.cons_append, applyAll_cons]
    cases h : x.apply doc with
    | error => rw [h] at hx; cases hx
    | ok next => rw [h] at hx; exact ih hx

variable {effects : List (OperationIdentityEffect P)}

theorem applyBatchLoop_ok {capture : Bool} {index : ℕ} {effects' : List (OperationIdentityEffect P)}
    {operations : List (Operation P)} (hv : doc.Valid)
    (h : applyBatchLoop capture index doc effects operations = .ok (after, effects')) :
    applyAll operations doc = .ok after ∧ after.Valid := by
  induction operations generalizing index doc effects with
  | nil =>
    obtain ⟨rfl, -⟩ := h
    exact ⟨rfl, hv⟩
  | cons operation operations ih =>
    simp only [applyBatchLoop] at h
    cases hstep : applyValidated operation doc with
    | error error => simp [hstep] at h
    | ok next =>
      simp only [hstep] at h
      obtain ⟨hall, hvalid⟩ := ih (applyValidated_valid hstep) h
      refine ⟨?_, hvalid⟩
      rw [applyAll_cons, apply_of_valid hv, hstep]
      exact hall

/-- An accepted batch starts from a valid document, ends in one, and is the fold of
`Operation::apply` over its operations. -/
theorem applyBatchObserved_ok {operations : List (Operation P)}
    (h : applyBatchObserved doc operations = .ok (after, effects)) :
    doc.Valid ∧ applyAll operations doc = .ok after ∧ after.Valid := by
  unfold applyBatchObserved applyBatchInner at h
  split at h
  · cases h
  · cases hv : validateDocument doc with
    | error => simp [hv] at h
    | ok u =>
      simp only [hv] at h
      exact ⟨hv, applyBatchLoop_ok hv h⟩

theorem applyBatchLoop_ne_empty {capture : Bool} {index : ℕ} (operations : List (Operation P)) :
    applyBatchLoop capture index doc effects operations ≠ .error .empty := by
  induction operations generalizing index doc effects with
  | nil => simp [applyBatchLoop]
  | cons operation operations ih =>
    simp only [applyBatchLoop]
    split
    · simp
    · exact ih

/-- The branch of `do_operation` marked unreachable: a batch of one operation is not empty. -/
theorem applyBatchObserved_singleton_ne_empty (doc : Document P) (operation : Operation P) :
    applyBatchObserved doc [operation] ≠ .error .empty := by
  simp only [applyBatchObserved, applyBatchInner, List.isEmpty_cons, Bool.false_eq_true, ↓reduceIte]
  split
  · simp
  · exact applyBatchLoop_ne_empty _

/-! ## A payload to run -/

/-- The smallest payload with something to do: a document is a total, an operation adds to it. -/
abbrev tally : Payload where
  Effect := Unit
  Clip := Unit
  Track := Unit
  Document := ℕ
  Operation := ℕ
  OpError := Unit

/-- Adding zero is refused, and so is a total above 99. -/
instance : Rules tally where
  applyUnchecked
    | .other 0, _ => .error ()
    | .other n, doc => .ok { doc with rest := Nat.add doc.rest n }
    | _, doc => .ok doc
  recomputeDuration doc := .ok doc
  validateDocument doc := if Nat.ble doc.rest 99 then .ok () else .error ()

end Kinewright.Core
