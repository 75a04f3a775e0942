import Kinewright.Bundle.Moves
import Kinewright.Studio.Changes

/-!
# The evidence in a bundle

Over all calls on a bundle, and however its publications end: what a root names is only ever added to. The
root on disk may be ahead of the one in memory, and is then loaded by a reconciliation.
-/

namespace Kinewright.Bundle

open Fallible Studio ProjectBundle List
open Orchestration (ProjectId BranchId)

variable {enc : Encoding} {stored : Set Record} {b b' staged : ProjectBundle} {m : Recorded}

/-- The bundle after the calls. -/
def calls (enc : Encoding) (b : ProjectBundle) (list : List Call) : ProjectBundle :=
  list.foldl (fun b call => (call.run enc b).bundle) b

theorem calls_append (b : ProjectBundle) (first later : List Call) :
    calls enc b (first ++ later) = calls enc (calls enc b first) later :=
  foldl_append

/-! ## Nothing is left of a command -/

theorem Move.clean {stores : Host → Prop} (hmove : Move enc stores b b') (hclean : b.Clean) : b'.Clean := by
  cases hmove with
  | stay => exact hclean
  | leaked envelope result metadata hidle =>
    exact ⟨fun h => absurd h (Option.some_ne_none envelope), fun h => absurd h (Option.some_ne_none envelope)⟩
  | refused staged _ hidle hprepares hfixed hdisk hheld hclean' hsettled => exact hclean'
  | committed staged cut next unsettled hidle hprepares hstage | reconciled published hdisk
  | dropped hdisk => exact ⟨fun _ => rfl, fun _ => rfl⟩
  | unknown staged cut next landed hidle hprepares hstage =>
    cases hprepares with
    | issued id first hfirst hroom | acknowledged id old through hold hle hlt
    | retired id old forget hold hreconciled => exact ⟨hclean.result, hclean.metadata⟩
    | held envelope issuer following result metadata hissuer hlive hsequence hnext hbranch horigin hmetadata =>
      exact ⟨fun h => absurd h (Option.some_ne_none envelope), fun h => absurd h (Option.some_ne_none envelope)⟩
  | unsettled => exact ⟨hclean.result, hclean.metadata⟩

/-! ## What a publication adds -/

/-- A preparation leaves the root alone, and any metadata that is in flight with it was checked. -/
theorem of_prepares {stores : Host → Prop} (hprepares : Prepares enc stores b staged)
    (hidle : b.isIdle = true) (hclean : b.Clean) :
    staged.held.root = b.held.root ∧ Checked enc stores b staged.pendingMetadata := by
  have hnone : b.pendingMetadata = none := hclean.metadata (isIdle_iff.mp hidle).2
  have hchecked : Checked enc stores b b.pendingMetadata := by
    rw [hnone]
    intro update h
    cases h
  cases hprepares with
  | issued id first hfirst hroom | acknowledged id old through hold hle hlt
  | retired id old forget hold hreconciled => exact ⟨rfl, hchecked⟩
  | held envelope issuer following result metadata hissuer hlive hsequence hnext hbranch horigin
      hmetadata => exact ⟨rfl, hmetadata⟩

/-- The next root is the root as it was, or the root with the metadata in flight. -/
theorem root_of_stage {cut : Cut} {next : Published} (h : staged.stage enc cut = .ok next) :
    (staged.pendingMetadata = none ∧ next.root = some (staged.held.root.getD ⟨0, none, none, none⟩)) ∨
    ∃ update root, staged.pendingMetadata = some update ∧ staged.held.root = some root ∧
      next.root = some (update.apply root) := by
  simp only [stage, bind_eq_ok] at h
  obtain ⟨generation, _, receipts, _, ⟨⟩, _, ⟨⟩, _, root, hroot, hend⟩ := h
  cases hend
  unfold stageMetadata at hroot
  rcases hmetadata : staged.pendingMetadata with _ | update
  · rw [hmetadata] at hroot
    cases hroot
    exact .inl ⟨rfl, rfl⟩
  · simp only [hmetadata, bind_eq_ok, okOr_eq_ok] at hroot
    obtain ⟨held, hheld, hend⟩ := hroot
    cases hend
    exact .inr ⟨update, held, rfl, hheld, rfl⟩

/-- A root names what it named before, and more. -/
structure Follows (enc : Encoding) (stored : Set Record) (m m' : Recorded) (root : Option StudioRoot) : Prop where
  named : m'.At enc stored root
  chained : m'.Chained enc stored
  grows : m.Extends m'

/-- The root that a prepared bundle publishes only adds to what is recorded. -/
theorem follows_of_stage (hstored : stored.InjOn enc.reference)
    (hprepares : Prepares enc (Host.Within · stored) b staged) (hidle : b.isIdle = true)
    (hclean : b.Clean) (hm : m.At enc stored b.held.root) (hchained : m.Chained enc stored) {cut : Cut}
    {next : Published} (hstage : staged.stage enc cut = .ok next) :
    ∃ m', Follows enc stored m m' next.root := by
  obtain ⟨hroot, hchecked⟩ := of_prepares hprepares hidle hclean
  rcases root_of_stage hstage with ⟨_, hnext⟩ | ⟨update, root, hupdate, hheld, hnext⟩
  · refine ⟨m, ?_, hchained, .refl m⟩
    rw [hnext, hroot]
    rcases hempty : b.held.root with _ | root
    · rw [hempty] at hm
      exact ⟨hm.versions, hm.feedback, hm.runs⟩
    · rw [hempty] at hm
      exact hm
  · obtain ⟨host, hhost, envelope, change, result, hvalidate⟩ := hchecked update hupdate
    rw [hroot] at hheld
    rw [hheld] at hm
    obtain ⟨m', hm', hextends, hchains⟩ := records_of_validateMetadata hstored hhost hheld hm hvalidate
    rw [hnext]
    exact ⟨m', hm', hchains hchained, hextends⟩

/-! ## Over the calls -/

/-- What the bundle names in memory, and that the root on disk is not behind it. -/
structure Evident (enc : Encoding) (stored : Set Record) (m : Recorded) (b : ProjectBundle) : Prop where
  clean : b.Clean
  named : m.At enc stored b.held.root
  chained : m.Chained enc stored
  disk : ∀ published ∈ b.disk, ∃ m', Follows enc stored m m' published.root

theorem evident_activate (projectId : ProjectId) (manualBranchId : BranchId) (ownerEpoch : UInt64)
    (limits : StorageLimits) :
    Evident enc stored .empty (activate projectId manualBranchId ownerEpoch limits) where
  clean := ⟨fun _ => rfl, fun _ => rfl⟩
  named := Recorded.empty_at
  chained := Recorded.empty_chained
  disk _ h := by cases h

/-- The held root is the same, and so is the one on disk. -/
theorem Evident.of_same (h : Evident enc stored m b) (hclean : b'.Clean)
    (hroot : b'.held.root = b.held.root) (hdisk : b'.disk = b.disk) : Evident enc stored m b' where
  clean := hclean
  named := by
    rw [hroot]
    exact h.named
  chained := h.chained
  disk := by
    rw [hdisk]
    exact h.disk

section

variable (hstored : stored.InjOn enc.reference) (h : Evident enc stored m b)

include hstored h

/-- What is recorded is still recorded after a move. -/
theorem Evident.move
    (hmove : Move enc (Host.Within · stored) b b') : ∃ m', m.Extends m' ∧ Evident enc stored m' b' := by
  have hclean := hmove.clean h.clean
  cases hmove with
  | stay => exact ⟨m, .refl m, h⟩
  | leaked envelope result metadata hidle | dropped hdisk | unsettled =>
    exact ⟨m, .refl m, h.of_same hclean rfl rfl⟩
  | refused staged _ hidle hprepares hfixed hdisk hheld hclean' hsettled =>
    refine ⟨m, .refl m, h.of_same hclean ?_ hdisk⟩
    rcases hheld with hheld | hheld
    · rw [hheld]
    · rw [hheld]
      exact (of_prepares hprepares hidle h.clean).1
  | committed staged cut next unsettled hidle hprepares hstage =>
    obtain ⟨m', hfollows⟩ := follows_of_stage hstored hprepares hidle h.clean h.named h.chained hstage
    refine ⟨m', hfollows.grows, hclean, hfollows.named, hfollows.chained, ?_⟩
    rintro published ⟨⟩
    exact ⟨m', hfollows.named, hfollows.chained, .refl m'⟩
  | unknown staged cut next landed hidle hprepares hstage =>
    have hroot := (of_prepares hprepares hidle h.clean).1
    have hdisk : staged.disk = b.disk := by cases hprepares <;> rfl
    refine ⟨m, .refl m, hclean, ?_, h.chained, ?_⟩
    · show m.At enc stored staged.held.root
      rw [hroot]
      exact h.named
    · cases landed with
      | false =>
        intro published hpublished
        exact h.disk published (hdisk ▸ hpublished)
      | true =>
        rintro published ⟨⟩
        exact follows_of_stage hstored hprepares hidle h.clean h.named h.chained hstage
  | reconciled published hdisk =>
    obtain ⟨m', hfollows⟩ := h.disk published hdisk
    refine ⟨m', hfollows.grows, hclean, hfollows.named, hfollows.chained, ?_⟩
    intro other hother
    cases hdisk.symm.trans hother
    exact ⟨m', hfollows.named, hfollows.chained, .refl m'⟩

theorem Evident.run (call : Call) (hmeets : call.Meets (Host.Within · stored)) :
    ∃ m', m.Extends m' ∧ Evident enc stored m' (call.run enc b).bundle := by
  rcases move_of_run h.clean call hmeets with hmove | ⟨_, issuers, hissuers⟩
  · exact h.move hstored hmove
  · rw [hissuers]
    exact ⟨m, .refl m, h.of_same ⟨h.clean.result, h.clean.metadata⟩ rfl rfl⟩

theorem Evident.calls (list : List Call) (hmeets : ∀ call ∈ list, call.Meets (Host.Within · stored)) :
    ∃ m', m.Extends m' ∧ Evident enc stored m' (calls enc b list) := by
  induction list generalizing m b with
  | nil => exact ⟨m, .refl m, h⟩
  | cons call list ih =>
    rw [forall_mem_cons] at hmeets
    obtain ⟨next, hnext, hevident⟩ := h.run hstored call hmeets.1
    obtain ⟨m', hm', hend⟩ := ih hevident hmeets.2
    exact ⟨m', hnext.trans hm', hend⟩

end

/-- Whatever the calls on a bundle are and however they end: the root names a history of every comment and
a log of every run, and the root after later calls names the same and more. -/
theorem metadata_append_only (hstored : stored.InjOn enc.reference) (projectId : ProjectId)
    (manualBranchId : BranchId) (ownerEpoch : UInt64) (limits : StorageLimits)
    (first later : List Call)
    (hmeets : ∀ call ∈ first ++ later, call.Meets (Host.Within · stored)) :
    ∃ m m' : Recorded, m.At enc stored (calls enc (activate projectId manualBranchId ownerEpoch limits)
        first).held.root ∧
      m'.At enc stored (calls enc (activate projectId manualBranchId ownerEpoch limits) (first ++ later)).held.root ∧
      m.Chained enc stored ∧ m'.Chained enc stored ∧ m.Extends m' := by
  rw [forall_mem_append] at hmeets
  have hactivate : Evident enc stored .empty (activate projectId manualBranchId ownerEpoch limits) :=
    evident_activate projectId manualBranchId ownerEpoch limits
  obtain ⟨m, _, hm⟩ := hactivate.calls hstored first hmeets.1
  obtain ⟨m', hextends, hm'⟩ := hm.calls hstored later hmeets.2
  rw [calls_append]
  exact ⟨m, m', hm.named, hm'.named, hm.chained, hm'.chained, hextends⟩

/-! ## A voice note that is saved -/

/-- Every record is short, and has the digest that all have. -/
def sampleEncoding : Encoding where
  orchestration := {
    scopedBytes := fun _ _ _ _ _ => 600
    digest := fun _ _ _ _ _ => "fedcba9876543210fedcba9876543210fedcba9876543210fedcba9876543210"
    envelopeBytes := fun _ => 700
    identity := fun digest domain => digest ++ domain
    executionBytes := fun _ => 300
    briefBytes := fun _ => 900
    projectionBytes := fun _ => 500
    snapshotBytes := fun _ => 550
    segmentBytes := fun _ => 600
    resultBytes := fun _ => 800
    resultDigest := fun _ => "0123456789abcdef0123456789abcdef0123456789abcdef0123456789abcdef"
    cutBytes := fun _ _ _ _ => 4000 }
  digest := fun _ => "0123456789abcdef0123456789abcdef0123456789abcdef0123456789abcdef"
  bytes := fun _ => 500
  viewBytes := fun _ => 400
  updateBytes := fun _ => 300
  updateDigest := fun _ => "fedcba9876543210fedcba9876543210fedcba9876543210fedcba9876543210"
  commandBytes := fun _ => 200
  commandDigest := fun _ => "00112233445566778899aabbccddeeff00112233445566778899aabbccddeeff"

/-- An object of the kind. -/
def sampleRef (kind : Accounting.RecordKind) : Accounting.ObjectRef :=
  ⟨"0123456789abcdef0123456789abcdef0123456789abcdef0123456789abcdef", 100, kind⟩

def sampleIssuer : IssuerId := "0123456789abcdef0123456789abcdef"

/-- The branch at its first checkpoint, which is published whatever is staged. -/
def sampleCut : Cut where
  checkpoint := {
    branchId := "manual"
    headId := "head"
    documentRef := sampleRef .document
    documentHash := (sampleRef .document).sha256
    historyRef := sampleRef .history
    lineageRef := sampleRef .lineage
    inputManifestRef := sampleRef .inputManifest
    batchIds := [] }
  reference := sampleRef .branchCheckpoint

/-- A save that nothing refuses. -/
def sampleSave : SaveHost := ⟨.ok (), .ok (), .ok (), .ok (sampleCut, .committed), .ok (), false⟩

def sampleNote : VoiceRef := ⟨"note", sampleRef .ownedEvidence, 1000000, none, none, none, none⟩

/-- The index in which the note is saved. -/
def sampleRecord : Record :=
  .feedbackIndex { FeedbackIndex.empty with notes := KeyedMap.empty.insert "note" sampleNote }

/-- A store that holds only the index with the note. -/
def sampleStore : Host where
  read := fun _ => .error (.io "not found")
  readEvidence := fun _ => .error (.io "not found")
  pin := fun _ => .ok ()
  admission := fun record => if record = sampleRecord then .ok () else .error (.capacity "objects")
  checkpointReference := fun _ => .ok (sampleRef .branchCheckpoint)
  parseStrokes := fun _ => []

/-- The note is saved by a command of the issuer. -/
def sampleCommand : Call :=
  .metadataCommand ⟨.ok (), .ok (), .ok (), sampleStore, .ok (sampleCut, .committed)⟩
    ⟨⟨sampleIssuer, 1⟩, "project", "manual", 7, some "head"⟩ .feedback ⟨1, .saveVoice sampleNote⟩

def sampleStart : ProjectBundle := activate "project" "manual" 7 .default

example : (calls sampleEncoding sampleStart
    [.issueIssuer sampleSave (.ok sampleIssuer) 1, sampleCommand]).held.root.bind
      StudioRoot.feedbackIndexRef = some (sampleEncoding.reference sampleRecord) := by
  decide +kernel

theorem within_sampleStore : sampleStore.Within {sampleRecord} where
  read reference record h := by cases h
  admission record h := by
    by_contra hother
    simp only [Set.mem_singleton_iff] at hother
    simp [sampleStore, hother] at h

theorem metadata_append_only_sample : ∃ m m' : Recorded,
    m.At sampleEncoding {sampleRecord} (calls sampleEncoding sampleStart
      [.issueIssuer sampleSave (.ok sampleIssuer) 1]).held.root ∧
    m'.At sampleEncoding {sampleRecord} (calls sampleEncoding sampleStart
      ([.issueIssuer sampleSave (.ok sampleIssuer) 1] ++ [sampleCommand])).held.root ∧
    m.Chained sampleEncoding {sampleRecord} ∧ m'.Chained sampleEncoding {sampleRecord} ∧
    m.Extends m' := by
  apply metadata_append_only (Set.injOn_singleton _ _)
  intro call hcall
  simp only [cons_append, nil_append, mem_cons, not_mem_nil, or_false] at hcall
  rcases hcall with rfl | rfl
  · exact trivial
  · exact within_sampleStore

end Kinewright.Bundle
