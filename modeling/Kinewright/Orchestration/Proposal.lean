import Kinewright.Orchestration.Machine
import Kinewright.Orchestration.Shape

/-!
# Proposals

What a command proposes when it is not refused with an error: a projection that was validated.
-/

namespace Kinewright.Orchestration

open Fallible Accounting

variable {enc : Encoding} {s : RunProjection} {project : ProjectId} {generation : ℕ}
  {envelope : OrchestrationEnvelope} {previous : Option ObjectRef} {live : Option RuntimeRequest}
  {decision : CommandDecision} {update : ValidatedRunUpdate}

/-- The briefs and the references of a projection are as every published projection has them. -/
structure Referenced (s : RunProjection) : Prop where
  briefs : ∀ task ∈ s.tasks, task.brief.scope.base.checkpoint.recordKind = .branchCheckpoint ∧
    task.brief.inputs.recordKind = .inputManifest
  refs : ∀ reference ∈ s.refs, validateReference reference = .ok ()

theorem kinds_of_checkBrief {brief : TaskBrief} (h : checkBrief enc brief = .ok ()) :
    brief.scope.base.checkpoint.recordKind = .branchCheckpoint ∧ brief.inputs.recordKind = .inputManifest := by
  simp only [checkBrief, bind_eq_ok, refuse_eq_ok] at h
  obtain ⟨⟨⟩, _, ⟨⟩, _, ⟨⟩, _, hkinds⟩ := h
  push Not at hkinds
  exact hkinds

theorem referenced_of_snapshotDependencies {refs : List ObjectRef}
    (h : snapshotDependencies enc s = .ok refs) : Referenced s := by
  simp only [snapshotDependencies, projectionRefs, bind_eq_ok] at h
  obtain ⟨⟨⟩, _, _, ⟨⟨⟩, _, ⟨⟩, hbriefs, ⟨⟩⟩, ⟨⟩, hrefs, ⟨⟩⟩ := h
  exact ⟨fun task htask => kinds_of_checkBrief (all_eq_ok.mp hbriefs task htask), all_eq_ok.mp hrefs⟩

/-- A proposal is of the projection with the next sequence, which was validated. -/
theorem propose_eq_ok (h : propose enc project generation envelope previous s decision = .ok update) :
    update.projection = { s with sequence := s.sequence + 1 } ∧ update.decision = decision ∧
      validateProjection enc update.projection = .ok () ∧ Referenced update.projection := by
  simp only [propose, ValidatedRunUpdate.new, bind_eq_ok] at h
  obtain ⟨sequence, hsequence, ⟨⟩, _, ⟨⟩, _, ⟨⟩, _, ⟨⟩, hvalid, snapshot, hsnapshot, events, _, ⟨⟩, _,
    ⟨⟩, _, ⟨⟩, _, next, _, ⟨⟩⟩ := h
  obtain rfl : sequence = s.sequence + 1 := by
    unfold checkedSucc at hsequence
    split at hsequence
    · exact (Except.ok.inj hsequence).symm
    · cases hsequence
  exact ⟨rfl, rfl, hvalid, referenced_of_snapshotDependencies hsnapshot⟩

/-- A command proposes what its transition leaves, with the sequence after. -/
theorem prepareNext_eq_ok (h : prepareNext enc s project generation envelope previous live = .ok update) :
    ∃ transition next, validateProjection enc s = .ok () ∧ decideNext s envelope.command = .ok transition ∧
      nextProjection enc s envelope live transition = .ok next ∧
      update.projection = { next with sequence := next.sequence + 1 } ∧
      update.decision = transition.decision ∧
      validateProjection enc update.projection = .ok () ∧ Referenced update.projection := by
  simp only [prepareNext, bind_eq_ok] at h
  obtain ⟨⟨⟩, _, ⟨⟩, hvalid, transition, htransition, next, hnext, hpropose⟩ := h
  exact ⟨transition, next, hvalid, htransition, hnext, propose_eq_ok hpropose⟩

/-- A result proposes what its publication leaves, with the sequence after. -/
theorem prepareResultUpdate_eq_ok {result : ObjectRef}
    (h : prepareResultUpdate enc s project generation envelope previous result = .ok update) :
    ∃ id published next, validateProjection enc s = .ok () ∧ envelope.command = .publishResult id published ∧
      publishResult enc s envelope id published result = .ok next ∧
      update.projection = { next with
        controlRevision := envelope.identity enc "control-revision"
        sequence := next.sequence + 1 } ∧
      update.decision = .applied ∧ validateProjection enc update.projection = .ok () := by
  simp only [prepareResultUpdate, resultAndDelivery, bind_eq_ok] at h
  obtain ⟨⟨⟩, hvalid, next, ⟨⟨⟩, _, hpublish⟩, hpropose⟩ := h
  obtain ⟨hprojection, hdecision, hok, _⟩ := propose_eq_ok hpropose
  split at hpublish
  · next id published hcommand =>
    exact ⟨id, published, next, hvalid, hcommand, hpublish, hprojection, hdecision, hok⟩
  · cases hpublish

/-- A run is started with its director and the effect that prepares it. -/
theorem prepareFirst_eq_ok (h : prepareFirst enc project generation envelope previous = .ok update) :
    ∃ brief, envelope.command = .startRun brief ∧ brief.role = .director ∧
      update.projection = { refreshWait (refreshCleanup (startRun enc envelope brief)) with
        sequence := (refreshWait (refreshCleanup (startRun enc envelope brief))).sequence + 1 } ∧
      update.decision = .applied ∧ validateProjection enc update.projection = .ok () := by
  simp only [prepareFirst, bind_eq_ok] at h
  obtain ⟨⟨⟩, _, h⟩ := h
  split at h
  · next brief hcommand =>
    obtain ⟨⟨⟩, hfirst, hpropose⟩ := bind_eq_ok.mp h
    rw [refuse_eq_ok, not_not, hcommand, decideFirst] at hfirst
    obtain ⟨hprojection, hdecision, hok, _⟩ := propose_eq_ok hpropose
    refine ⟨brief, hcommand, ?_, hprojection, hdecision, hok⟩
    split at hfirst
    · assumption
    · cases hfirst
  · cases h

end Kinewright.Orchestration
