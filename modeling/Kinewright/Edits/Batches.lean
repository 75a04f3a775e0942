import Kinewright.Edits.Single

/-!
# Batches that are accepted

`operation.rs`: a batch is accepted if each of its operations is, on what those before it made of the document.
-/

namespace Kinewright.Edits

open Fallible Model

variable {doc middle after : Document} {operation : Operation} {operations rest : List Operation} {draft : Draft}

/-- The operations are accepted one after the other. -/
inductive Performs : Document → List Operation → Document → Prop
  | nil (doc : Document) : Performs doc [] doc
  | cons {doc after : Document} {operation : Operation} {operations : List Operation} {draft : Draft}
      (hstep : operation.step doc = .ok draft) (hrest : Performs draft.doc operations after) :
      Performs doc (operation :: operations) after

namespace Performs

theorem append (h : Performs doc operations middle) (hrest : Performs middle rest after) :
    Performs doc (operations ++ rest) after := by
  induction h with
  | nil => exact hrest
  | cons hstep _ ih => exact .cons hstep (ih hrest)

/-- An operation that is accepted by itself. -/
theorem single (h : operation.apply doc = .ok after) : Performs doc [operation] after := by
  rw [Operation.apply, bind_eq_ok] at h
  obtain ⟨⟨⟩, -, h⟩ := h
  obtain ⟨draft, hstep, h⟩ := bind_eq_ok.mp h
  obtain rfl := Except.ok.inj h
  exact .cons hstep (.nil _)

/-- Each operation of the batch was accepted. -/
theorem accepted (h : Performs doc operations after) (hmem : operation ∈ operations) :
    ∃ before edited, operation.draft before = .ok edited := by
  induction h with
  | nil => cases hmem
  | cons hstep _ ih =>
    rcases List.mem_cons.mp hmem with rfl | hmem
    · obtain ⟨edited, hedited, -⟩ := step_ok hstep
      exact ⟨_, edited, hedited⟩
    · exact ih hmem

theorem exists_applyEach (h : Performs doc operations after) (done : ℕ) :
    ∃ effects, applyEach done doc operations = .ok (after, effects) := by
  induction h generalizing done with
  | nil => exact ⟨[], rfl⟩
  | @cons doc _ operation _ draft hstep _ ih =>
    obtain ⟨effects, heffects⟩ := ih (done + 1)
    refine ⟨identityEffect (clipIdentities doc) draft.doc (operation.splitParent doc) :: effects, ?_⟩
    rw [applyEach, mapError_eq_ok.mpr hstep, ok_bind, heffects, ok_bind]

theorem of_applyEach {done : ℕ} {effects : List OperationIdentityEffect}
    (h : applyEach done doc operations = .ok (after, effects)) : Performs doc operations after := by
  induction operations generalizing doc done effects with
  | nil =>
    obtain ⟨rfl, -⟩ := Prod.mk.inj (Except.ok.inj h)
    exact .nil _
  | cons operation operations ih =>
    rw [applyEach, bind_eq_ok] at h
    obtain ⟨draft, hstep, h⟩ := h
    obtain ⟨⟨last, effects⟩, hrest, h⟩ := bind_eq_ok.mp h
    obtain ⟨rfl, -⟩ := Prod.mk.inj (Except.ok.inj h)
    exact .cons (mapError_eq_ok.mp hstep) (ih hrest)

end Performs

/-- A batch on a valid document is accepted exactly if it is not empty and its operations are accepted one after the
other. -/
theorem applyBatch_eq_ok (hvalid : doc.Valid) : (∃ effects, applyBatch doc operations = .ok (after, effects)) ↔
    operations ≠ [] ∧ Performs doc operations after := by
  have hfailed : (doc.validate.mapError fun error => (1, error)).mapError
      (fun failure : ℕ × OpError => BatchError.operationFailed failure.1 failure.2) = .ok () :=
    mapError_eq_ok.mpr (mapError_eq_ok.mpr (Document.valid_iff.mp hvalid))
  constructor
  · rintro ⟨effects, h⟩
    rw [applyBatch, unless_eq_ok, hfailed, ok_bind, mapError_eq_ok] at h
    exact ⟨h.1, .of_applyEach h.2⟩
  · rintro ⟨hne, h⟩
    obtain ⟨effects, heffects⟩ := h.exists_applyEach 0
    refine ⟨effects, ?_⟩
    rw [applyBatch, unless_eq_ok, hfailed, ok_bind, mapError_eq_ok]
    exact ⟨hne, heffects⟩

end Kinewright.Edits
