import Kinewright.Bundle.Commands

/-!
# What a call does to a bundle

Every call leaves the bundle alone, or prepares it and has it published. When the publication is refused
the preparation is taken back, or the bundle is left waiting for a reconciliation.
-/

namespace Kinewright.Bundle

open Fallible Studio KeyedMap
open Accounting (ObjectRef CommandId)

variable {enc : Encoding} {stores : Host → Prop} {b b' staged : ProjectBundle}

/-! ## Calls -/

/-- The operations on a bundle, with what happens outside of it. -/
inductive Call
  | issueIssuer (host : ProjectBundle.SaveHost) (fresh : Except BundleError IssuerId) (firstSequence : UInt64)
  | acknowledgeIssuer (host : ProjectBundle.SaveHost) (id : IssuerId) (through : UInt64)
  | retireIssuer (host : ProjectBundle.SaveHost) (id : IssuerId) (forget : Bool)
  | command (host : ProjectBundle.CommandHost) (envelope : CommandEnvelope)
  | admittedHistory (host : ProjectBundle.CommandHost) (envelope : CommandEnvelope) (inputs : ObjectRef)
  | metadataCommand (host : ProjectBundle.MetadataHost) (envelope : MetadataEnvelope)
      (scope : MetadataScope) (update : MetadataUpdate)
  | reconcileCommand (reads : Except BundleError Unit)

/-- The call, with the lookup that it answers if it is a command. -/
def Call.run (enc : Encoding) (b : ProjectBundle) : Call → Done (Option ReceiptLookup)
  | .issueIssuer host fresh firstSequence => (b.issueIssuer enc host fresh firstSequence).map fun _ => none
  | .acknowledgeIssuer host id through => (b.acknowledgeIssuer enc host id through).map fun _ => none
  | .retireIssuer host id forget => (b.retireIssuer enc host id forget).map fun _ => none
  | .command host envelope => (b.command enc host envelope).map some
  | .admittedHistory host envelope inputs => (b.admittedHistory enc host envelope inputs).map some
  | .metadataCommand host envelope scope update => (b.metadataCommand enc host envelope scope update).map some
  | .reconcileCommand reads => ⟨(b.reconcileCommand reads).1, false, (b.reconcileCommand reads).2.map fun _ => none⟩

/-- The store that the call meets is one of these. -/
def Call.Meets (stores : Host → Prop) : Call → Prop
  | .metadataCommand host _ _ _ => stores host.store
  | _ => True

/-! ## Preparations and moves -/

/-- What is fixed when a bundle is activated. -/
structure Fixed (b b' : ProjectBundle) : Prop where
  projectId : b'.projectId = b.projectId
  origins : b'.originProjectIds = b.originProjectIds
  branch : b'.manualBranchId = b.manualBranchId
  epoch : b'.ownerEpoch = b.ownerEpoch
  limits : b'.limits = b.limits

/-- The metadata that is in flight with a command: none, or a change that was checked. -/
def Checked (enc : Encoding) (stores : Host → Prop) (b : ProjectBundle)
    (metadata : Option ValidatedMetadataUpdate) : Prop :=
  ∀ update ∈ metadata, ∃ host, stores host ∧ ∃ envelope change result,
    validateMetadata enc host b envelope change = .ok (update, result)

/-- What a call makes of the bundle before it has it published. -/
inductive Prepares (enc : Encoding) (stores : Host → Prop) (b : ProjectBundle) : ProjectBundle → Prop
  | issued (id : IssuerId) (first : UInt64) (hfirst : first ≠ 0)
      (hroom : b.held.issuers.active < b.limits.issuers.toNat) :
      Prepares enc stores b (b.setIssuer id ⟨first, first - 1, false, none⟩)
  | acknowledged (id : IssuerId) (old : IssuerState) (through : UInt64)
      (hold : b.issuer? id = some old) (hle : old.reconciledHighWater ≤ through)
      (hlt : through < old.nextSequence) :
      Prepares enc stores b (b.setIssuer id { old with reconciledHighWater := through })
  | retired (id : IssuerId) (old : IssuerState) (forget : Bool) (hold : b.issuer? id = some old)
      (hreconciled : old.isReconciled = true) :
      Prepares enc stores b { b with held := { b.held with
        receipts := ProjectBundle.retireReceipts b.held.receipts id forget
        issuers := ProjectBundle.retireState b.held.issuers
          (ProjectBundle.retireReceipts b.held.receipts id forget) id old } }
  | held (envelope : CommandEnvelope) (issuer : IssuerState) (next : UInt64)
      (result : Option ReceiptResult) (metadata : Option ValidatedMetadataUpdate)
      (hissuer : b.issuer? envelope.id.issuer = some issuer) (hlive : issuer.retired = false)
      (hsequence : issuer.nextSequence = envelope.id.sequence)
      (hnext : checkedNext envelope.id.sequence = some next)
      (hbranch : b.held.branches.get? b.manualBranchId ≠ none)
      (horigin : envelope.manual.bind ManualHistoryIdentity.recoveryOrigin = none)
      (hmetadata : Checked enc stores b metadata) :
      Prepares enc stores b ((b.hold envelope result metadata).setIssuer envelope.id.issuer
        { issuer with nextSequence := next })

/-- The bundle after its publication: nothing is in flight, but its end may be unsettled. -/
def ProjectBundle.land (b : ProjectBundle) (next : Published) (unsettled : Bool) : ProjectBundle :=
  { b with
    held := next
    disk := some next
    unsettled := unsettled
    pendingCommand := none
    pendingResult := none
    pendingMetadata := none }

/-- Nothing of a command is left when none is in flight. -/
structure ProjectBundle.Clean (b : ProjectBundle) : Prop where
  result : b.pendingCommand = none → b.pendingResult = none
  metadata : b.pendingCommand = none → b.pendingMetadata = none

/-- Everything that a call may do to the bundle. -/
inductive Move (enc : Encoding) (stores : Host → Prop) (b : ProjectBundle) : ProjectBundle → Prop
  | stay : Move enc stores b b
  /-- The call is refused with a command in flight that has no next sequence. -/
  | leaked (envelope : CommandEnvelope) (result : Option ReceiptResult)
      (metadata : Option ValidatedMetadataUpdate) (hidle : b.isIdle = true) :
      Move enc stores b (b.hold envelope result metadata)
  | refused (staged b' : ProjectBundle) (hidle : b.isIdle = true) (hprepares : Prepares enc stores b staged)
      (hfixed : Fixed b b') (hdisk : b'.disk = b.disk)
      (hheld : b'.held = b.held ∨ b'.held = staged.held)
      (hclean : b'.Clean) (hsettled : b'.isIdle = true → b' = b) : Move enc stores b b'
  | committed (staged : ProjectBundle) (cut : Cut) (next : Published) (unsettled : Bool)
      (hidle : b.isIdle = true) (hprepares : Prepares enc stores b staged)
      (hstage : staged.stage enc cut = .ok next) : Move enc stores b (staged.land next unsettled)
  | unknown (staged : ProjectBundle) (cut : Cut) (next : Published) (landed : Bool)
      (hidle : b.isIdle = true) (hprepares : Prepares enc stores b staged)
      (hstage : staged.stage enc cut = .ok next) : Move enc stores b (staged.doubts next landed)
  /-- The root on disk is loaded. -/
  | reconciled (published : Published) (hdisk : b.disk = some published) :
      Move enc stores b { b.release with held := published, unsettled := false }
  /-- There is no root yet. -/
  | dropped (hdisk : b.disk = none) : Move enc stores b { b.release with unsettled := false }
  /-- The root on disk cannot be loaded. -/
  | unsettled : Move enc stores b { b with unsettled := true }

/-! ## Publications -/

namespace ProjectBundle

theorem isIdle_iff : b.isIdle = true ↔ b.unsettled = false ∧ b.pendingCommand = none := by
  simp [isIdle]

theorem checkpoint_eq_error {branch : Orchestration.BranchId} {error : BundleError}
    (h : b.checkpoint branch = .error error) : error = .unsupported "unknown branch" := by
  unfold checkpoint okOr at h
  split at h
  · cases h
  · exact (Except.error.inj h).symm

theorem settle_eq (h : b.unsettled = false) : { b with unsettled := false } = b := by
  rw [← h]

/-- A publication is refused, lands, or ends in doubt. -/
theorem publish_cases (enc : Encoding) (b : ProjectBundle) (attempt : Attempt) :
    (∃ error, b.publish enc attempt = (b, .error error)) ∨
    ∃ cut next, b.stage enc cut = .ok next ∧ (b.publish enc attempt = (b.lands next, .ok ()) ∨
        ∃ landed, b.publish enc attempt = (b.doubts next landed, .error .durabilityUnknown)) := by
  unfold publish
  split
  · exact .inl ⟨_, rfl⟩
  · rcases attempt with error | ⟨cut, ending⟩
    · exact .inl ⟨error, rfl⟩
    · rcases hstage : b.stage enc cut with error | next
      · exact .inl ⟨error, by simp [hstage]⟩
      · cases ending with
        | committed => exact .inr ⟨cut, next, hstage, .inl (by simp [hstage])⟩
        | refused error => exact .inl ⟨error, by simp [hstage]⟩
        | unknown landed => exact .inr ⟨cut, next, hstage, .inr ⟨landed, by simp [hstage]⟩⟩

/-- What a save leaves and answers. -/
inductive Saved (enc : Encoding) (b : ProjectBundle) : ProjectBundle → Except BundleError Unit → Prop
  | refused (uncertain : Bool) (error : BundleError) :
      Saved enc b { b with unsettled := uncertain } (.error error)
  | committed (cut : Cut) (next : Published) (hstage : b.stage enc cut = .ok next) : Saved enc b (b.lands next) (.ok ())
  | unsettled (cut : Cut) (next : Published) (hstage : b.stage enc cut = .ok next)
      (error : BundleError) : Saved enc b { b.lands next with unsettled := true } (.error error)
  | unknown (cut : Cut) (next : Published) (landed : Bool) (hstage : b.stage enc cut = .ok next) :
      Saved enc b (b.doubts next landed) (.error .durabilityUnknown)

/-- A save of an idle bundle leaves it, perhaps unsettled, or publishes it. -/
theorem saved_of_isIdle (enc : Encoding) (hidle : b.isIdle = true) (host : SaveHost) :
    Saved enc b (b.save enc host).bundle (b.save enc host).result := by
  obtain ⟨hsettled, hpending⟩ := isIdle_iff.mp hidle
  have hrefused (error : BundleError) : Saved enc b b (.error error) := by
    have h : Saved enc b { b with unsettled := false } (.error error) := .refused false error
    rwa [settle_eq hsettled] at h
  rcases hready : host.ready with error | ⟨⟩
  · simpa [save, Done.check, Done.refused, hready] using hrefused error
  rcases hselected : host.selected with error | ⟨⟩
  · simpa [save, Done.check, Done.refused, hready, hsettled, hpending, hselected] using hrefused error
  have hsave : b.save enc host = b.publishPending enc host := by
    simp [save, Done.check, hready, hsettled, hpending, hselected]
  rw [hsave, publishPending]
  rcases b.publish_cases enc host.attempt with
    ⟨error, h⟩ | ⟨cut, next, hstage, h | ⟨landed, h⟩⟩
  · have hback : Saved enc b { b with unsettled := host.uncertain } (.error error) :=
      .refused host.uncertain error
    simpa [h, hsettled] using hback
  · rcases host.settled with error | ⟨⟩
    · simpa [h] using Saved.unsettled cut next hstage error
    · simpa [h] using Saved.committed cut next hstage
  · simpa [h, doubts] using Saved.unknown cut next landed hstage

end ProjectBundle

open ProjectBundle

/-! ## Issuers -/

section Saving

variable (hidle : b.isIdle = true) (hclean : b.Clean)

include hidle in
/-- A prepared bundle is idle as the bundle was. -/
theorem idle_of_held (hstaged : staged = { b with held := staged.held }) : staged.isIdle = true := by
  rw [hstaged]
  exact hidle

include hidle hclean in
/-- A prepared bundle is saved, or its preparation is taken back. -/
theorem move_of_saveOr {α : Type} (hprepares : Prepares enc stores b staged)
    (hstaged : staged = { b with held := staged.held }) (host : SaveHost) (answer : α)
    (takeBack : ProjectBundle → ProjectBundle) :
    Move enc stores b (staged.saveOr enc host answer takeBack).bundle ∨
      (staged.saveOr enc host answer takeBack).bundle = takeBack staged := by
  obtain ⟨hsettled, hpending⟩ := isIdle_iff.mp hidle
  have hstill : staged.unsettled = false := (isIdle_iff.mp (idle_of_held hidle hstaged)).1
  have hland (next : Published) (unsettled : Bool) :
      { staged.lands next with unsettled := unsettled } = staged.land next unsettled := by
    rw [hstaged, land, lands, hpending, hclean.result hpending, hclean.metadata hpending]
  have hsaved := saved_of_isIdle enc (idle_of_held hidle hstaged) host
  unfold saveOr
  generalize staged.save enc host = done at hsaved ⊢
  obtain ⟨saved, attempted, result⟩ := done
  simp only at hsaved ⊢
  cases hsaved with
  | refused uncertain error =>
    cases uncertain with
    | true =>
      refine .inl (.refused staged _ hidle hprepares ?_ ?_ (.inr rfl) ?_ ?_)
      · rw [hstaged]
        exact ⟨rfl, rfl, rfl, rfl, rfl⟩
      · rw [hstaged]
        rfl
      · rw [hstaged]
        exact ⟨hclean.result, hclean.metadata⟩
      · simp [isIdle]
    | false =>
      right
      simp only [Bool.false_eq_true, if_false, settle_eq hstill]
  | committed cut next hstage =>
    have hself : staged.lands next = staged.land next false :=
      (settle_eq (b := staged.lands next) hstill).symm.trans (hland next false)
    rw [hself]
    exact .inl (.committed staged cut next false hidle hprepares hstage)
  | unsettled cut next hstage error =>
    rw [hland]
    exact .inl (.committed staged cut next true hidle hprepares hstage)
  | unknown cut next landed hstage =>
    exact .inl (.unknown staged cut next landed hidle hprepares hstage)

end Saving

/-- The call makes an issuer whose identity is there already. -/
def Call.Takes (b : ProjectBundle) : Call → Prop
  | .issueIssuer _ fresh _ => ∃ id, fresh = .ok id ∧ b.issuer? id ≠ none
  | _ => False

section

variable (hclean : b.Clean) (host : SaveHost)

include hclean host

theorem move_of_issueIssuer (fresh : Except BundleError IssuerId) (first : UInt64) :
    Move enc stores b (b.issueIssuer enc host fresh first).bundle ∨ (∃ id, fresh = .ok id ∧ b.issuer? id ≠ none) ∧
        ∃ issuers, (b.issueIssuer enc host fresh first).bundle = b.withIssuers issuers := by
  unfold issueIssuer
  split
  · exact .inl .stay
  next hidle =>
  rw [Bool.not_eq_false] at hidle
  split
  · exact .inl .stay
  next hroom =>
  rw [not_or, not_le] at hroom
  rcases fresh with error | id
  · exact .inl .stay
  simp only [Done.check]
  rcases move_of_saveOr hidle hclean (.issued id first hroom.1 hroom.2) rfl host id
    (fun saved => saved.withIssuers (saved.held.issuers.erase id)) with h | h
  · exact .inl h
  · rw [h]
    rcases hget : b.issuer? id with _ | old
    · left
      have hself : (b.setIssuer id ⟨first, first - 1, false, none⟩).held.issuers.erase id =
          b.held.issuers := erase_insert hget
      rw [hself]
      exact .stay
    · exact .inr ⟨⟨id, rfl, by simp [hget]⟩, _, rfl⟩

theorem move_of_acknowledgeIssuer (id : IssuerId)
    (through : UInt64) : Move enc stores b (b.acknowledgeIssuer enc host id through).bundle := by
  unfold acknowledgeIssuer
  split
  · exact .stay
  next hidle =>
  rw [Bool.not_eq_false] at hidle
  split
  · exact .stay
  next old hold =>
  split
  · exact .stay
  next hthrough =>
  rw [not_or, UInt64.not_lt, UInt64.not_le] at hthrough
  rcases move_of_saveOr hidle hclean (.acknowledged id old through hold hthrough.1 hthrough.2) rfl host ()
    (fun saved => saved.setIssuer id old) with h | h
  · exact h
  · have hself : (b.setIssuer id { old with reconciledHighWater := through }).setIssuer id old = b := by
      rw [setIssuer, setIssuer, withIssuers, withIssuers, insert_insert hold]
    rw [h, hself]
    exact .stay

theorem move_of_retireIssuer (id : IssuerId)
    (forget : Bool) : Move enc stores b (b.retireIssuer enc host id forget).bundle := by
  unfold retireIssuer
  split
  · exact .stay
  next hidle =>
  rw [Bool.not_eq_false] at hidle
  split
  · exact .stay
  next old hold =>
  split
  · exact .stay
  next hreconciled =>
  rw [Bool.not_eq_false] at hreconciled
  rcases move_of_saveOr hidle hclean (.retired id old forget hold hreconciled) rfl host
    () (fun saved => { saved with held := { saved.held with
      receipts := b.held.receipts
      issuers := saved.held.issuers.insert id old } }) with h | h
  · exact h
  · have hself : (retireState b.held.issuers (retireReceipts b.held.receipts id forget) id old).insert
        id old = b.held.issuers := by
      unfold retireState
      split
      · exact insert_insert hold
      · exact insert_erase hold
    rw [h]
    simp only [hself]
    exact .stay

end

/-! ## Commands -/

/-- A command that holds no lease was not made by hand. -/
theorem manual_eq_none {envelope : CommandEnvelope} {bytes : ℕ}
    (h : envelope.encodedBytes enc = .ok bytes) (hlease : envelope.lease = none) :
    envelope.manual = none := by
  simp only [CommandEnvelope.encodedBytes, bind_eq_ok, refuse_eq_ok] at h
  obtain ⟨⟨⟩, _, ⟨⟩, _, ⟨⟩, hmanual, ⟨⟩, _, ⟨⟩, haction, _⟩ := h
  by_contra hsome
  have hname : envelope.action = "manual" := by
    by_contra hother
    exact hmanual ⟨hother, hsome⟩
  simp [CommandEnvelope.checkAction, hname, hlease, refuse] at haction

/-- What the checks of a command have seen of the bundle. -/
structure Admits (b : ProjectBundle) (id : CommandId) (issuer : IssuerState) : Prop where
  idle : b.isIdle = true
  found : b.issuer? id.issuer = some issuer
  live : issuer.retired = false
  sequence : issuer.nextSequence = id.sequence
  room : b.hasRoom = true

section

variable {issuer : IssuerState}

theorem admits_of_commandChecks {host : CommandHost} {envelope : CommandEnvelope} {next : UInt64} {result : Option ReceiptResult}
    (h : b.commandChecks enc host envelope = .ok (issuer, next, result)) :
    Admits b envelope.id issuer ∧ checkedNext envelope.id.sequence = some next ∧
      b.held.branches.get? b.manualBranchId ≠ none ∧ envelope.manual = none := by
  simp only [commandChecks, bind_eq_ok, refuse_eq_ok, not_or, okOr_eq_ok, Bool.not_eq_false, checkpoint, not_not] at h
  obtain ⟨checkpoint, hbranch, ⟨⟩, hidle, ⟨⟩, ⟨_, _, _, hlease, _⟩, revision, _, ⟨⟩, _, found, hissuer,
    ⟨⟩, ⟨hlive, hsequence⟩, next', hnext, ⟨⟩, hroom, bytes, hbytes, ⟨⟩, _, ⟨⟩, _, result', _, hend⟩ := h
  cases hend
  exact ⟨⟨hidle, hissuer, by simpa using hlive, hsequence, hroom⟩, hnext, by simp [hbranch],
    manual_eq_none hbytes hlease⟩

theorem admits_of_admittedChecks {host : CommandHost} {envelope : CommandEnvelope} {inputs : ObjectRef}
    (h : b.admittedChecks enc host envelope inputs = .ok issuer) :
    Admits b envelope.id issuer ∧ b.held.branches.get? b.manualBranchId ≠ none ∧
      envelope.manual.bind ManualHistoryIdentity.recoveryOrigin = none := by
  simp only [admittedChecks, bind_eq_ok, refuse_eq_ok, not_or, okOr_eq_ok, Bool.not_eq_false, checkpoint, not_not] at h
  obtain ⟨manual, hmanual, ⟨⟩, horigin, ⟨⟩, hidle, checkpoint, hbranch, ⟨⟩, _, ⟨⟩, _, found, hissuer,
    ⟨⟩, ⟨hlive, hsequence⟩, ⟨⟩, hroom, bytes, _, ⟨⟩, _, ⟨⟩, _, hend⟩ := h
  cases hend
  exact ⟨⟨hidle, hissuer, by simpa using hlive, hsequence, hroom⟩, by simp [hbranch], by simp [hmanual, horigin]⟩

theorem admits_of_metadataChecks {host : MetadataHost} {envelope : MetadataEnvelope} {update : MetadataUpdate}
    {change : ValidatedMetadataUpdate × MetadataResult}
    (h : b.metadataChecks enc host envelope update = .ok (issuer, change)) :
    Admits b envelope.id issuer ∧ b.pendingMetadata = none ∧
      validateMetadata enc host.store b envelope update = .ok change := by
  simp only [metadataChecks, bind_eq_ok, refuse_eq_ok, not_or, okOr_eq_ok, Bool.not_eq_false,
    not_not, Option.filter_eq_some_iff] at h
  obtain ⟨⟨⟩, ⟨hidle, hmetadata⟩, ⟨⟩, _, found, ⟨hissuer, hmatch⟩, ⟨⟩, hroom, ⟨⟩, _, change', hchange,
    hend⟩ := h
  cases hend
  simp only [Bool.and_eq_true, Bool.not_eq_true', decide_eq_true_eq] at hmatch
  exact ⟨⟨hidle, hissuer, hmatch.1, hmatch.2, hroom⟩, hmetadata, hchange⟩

end

section Committing

variable {issuer : IssuerState} {next : UInt64} {envelope : CommandEnvelope}
  {result : Option ReceiptResult} {metadata : Option ValidatedMetadataUpdate}

/-- The bundle with a command in flight, and the next sequence of its issuer. -/
def offer (b : ProjectBundle) (envelope : CommandEnvelope) (result : Option ReceiptResult)
    (metadata : Option ValidatedMetadataUpdate) (issuer : IssuerState) (next : UInt64) :
    ProjectBundle :=
  (b.hold envelope result metadata).setIssuer envelope.id.issuer { issuer with nextSequence := next }

/-- The next sequence of the issuer is taken back. -/
theorem held_setIssuer_offer (h : b.issuer? envelope.id.issuer = some issuer) :
    ((offer b envelope result metadata issuer next).setIssuer envelope.id.issuer issuer).held =
      b.held := by
  have hself : (b.held.issuers.insert envelope.id.issuer
      { issuer with nextSequence := next }).insert envelope.id.issuer issuer = b.held.issuers :=
    insert_insert h
  exact congrArg (fun issuers => { b.held with issuers := issuers }) hself

/-- When a publication is refused and the bundle left unsettled, only what it holds may differ. -/
theorem move_of_refused (hidle : b.isIdle = true)
    (hprepares : Prepares enc stores b (offer b envelope result metadata issuer next))
    (hfixed : Fixed b b') (hdisk : b'.disk = b.disk)
    (hheld : b'.held = b.held ∨ b'.held = (offer b envelope result metadata issuer next).held)
    (hbusy : b'.pendingCommand ≠ none) : Move enc stores b b' := by
  refine .refused _ b' hidle hprepares hfixed hdisk hheld ?_ ?_
  · exact ⟨fun h => absurd h hbusy, fun h => absurd h hbusy⟩
  · intro h
    exact absurd (isIdle_iff.mp h).2 hbusy

theorem move_of_commitCommand (hclean : b.Clean) (hadmits : Admits b envelope.id issuer)
    (hnext : checkedNext envelope.id.sequence = some next)
    (hbranch : b.held.branches.get? b.manualBranchId ≠ none) (hmanual : envelope.manual = none)
    (host : CommandHost) (result : Option ReceiptResult) :
    Move enc stores b (b.commitCommand enc host envelope issuer next result).bundle := by
  obtain ⟨hsettled, hpending⟩ := isIdle_iff.mp hadmits.idle
  have hmetadata := hclean.metadata hpending
  have hprepares : Prepares enc stores b (offer b envelope result b.pendingMetadata issuer next) :=
    .held envelope issuer next result b.pendingMetadata hadmits.found hadmits.live hadmits.sequence
      hnext hbranch (by rw [hmanual]; rfl) (by simp [Checked, hmetadata])
  have hland (following : Published) (unsettled : Bool) :
      { (offer b envelope result b.pendingMetadata issuer next).lands following with
        unsettled := unsettled, pendingCommand := none, pendingResult := none } =
      (offer b envelope result b.pendingMetadata issuer next).land following unsettled := by
    simp [offer, setIssuer, withIssuers, hold, lands, land, hmetadata]
  unfold commitCommand
  rw [← offer]
  rcases (offer b envelope result b.pendingMetadata issuer next).publish_cases enc
    host.attempt with ⟨error, h⟩ | ⟨cut, following, hstage, h | ⟨landed, h⟩⟩
  · simp only [h]
    refine move_of_refused hadmits.idle hprepares ?_ ?_ ?_ ?_
    · split
      all_goals exact ⟨rfl, rfl, rfl, rfl, rfl⟩
    · split
      · rfl
      · rfl
    · split
      · exact .inl (held_setIssuer_offer hadmits.found)
      · exact .inr rfl
    · split
      all_goals exact Option.some_ne_none envelope
  · simp only [h]
    split
    · rw [hland]
      exact .committed _ cut following true hadmits.idle hprepares hstage
    · have hself : { (offer b envelope result b.pendingMetadata issuer next).lands following with
          pendingCommand := none, pendingResult := none } =
          (offer b envelope result b.pendingMetadata issuer next).land following false := by
        rw [← hland following false]
        simp [offer, setIssuer, withIssuers, hold, lands, hsettled]
      rw [hself]
      exact .committed _ cut following false hadmits.idle hprepares hstage
  · simp only [h]
    exact .unknown _ cut following landed hadmits.idle hprepares hstage

/-- Without a command in flight, a bundle that offered one and took it back is the bundle as it was. -/
theorem release_offer (hclean : b.Clean) (hidle : b.isIdle = true) (h : b.issuer? envelope.id.issuer = some issuer) :
    ((offer b envelope result metadata issuer next).setIssuer envelope.id.issuer issuer).release =
      b := by
  obtain ⟨hsettled, hpending⟩ := isIdle_iff.mp hidle
  have hheld : ((offer b envelope result metadata issuer next).setIssuer envelope.id.issuer
      issuer).held = b.held := held_setIssuer_offer h
  have hself : ((offer b envelope result metadata issuer next).setIssuer envelope.id.issuer
      issuer).release = { b.release with held := b.held } :=
    congrArg (fun held => { b.release with held := held }) hheld
  rw [hself]
  show ({ b with pendingCommand := none, pendingResult := none, pendingMetadata := none } : ProjectBundle) = b
  rw [← hclean.metadata hpending, ← hclean.result hpending, ← hpending]

theorem move_of_commitAdmitted (hclean : b.Clean) (hadmits : Admits b envelope.id issuer)
    (hbranch : b.held.branches.get? b.manualBranchId ≠ none)
    (horigin : envelope.manual.bind ManualHistoryIdentity.recoveryOrigin = none)
    (host : CommandHost) : Move enc stores b (b.commitAdmitted enc host envelope issuer).bundle := by
  obtain ⟨hsettled, hpending⟩ := isIdle_iff.mp hadmits.idle
  have hresult := hclean.result hpending
  have hmetadata := hclean.metadata hpending
  unfold commitAdmitted
  simp only
  split
  · exact .leaked envelope b.pendingResult b.pendingMetadata hadmits.idle
  next next hnext =>
  rw [hadmits.sequence] at hnext
  have hprepares : Prepares enc stores b (offer b envelope b.pendingResult b.pendingMetadata issuer next) :=
    .held envelope issuer next b.pendingResult b.pendingMetadata hadmits.found hadmits.live
      hadmits.sequence hnext hbranch horigin (by simp [Checked, hmetadata])
  rw [← offer]
  rcases (offer b envelope b.pendingResult b.pendingMetadata issuer next).publish_cases enc
    host.attempt with ⟨error, h⟩ | ⟨cut, following, hstage, h | ⟨landed, h⟩⟩
  · have hback : { offer b envelope b.pendingResult b.pendingMetadata issuer next with
        pendingCommand := none }.setIssuer envelope.id.issuer issuer = b :=
      calc
        _ = ((offer b envelope b.pendingResult b.pendingMetadata issuer next).setIssuer
            envelope.id.issuer issuer).release := by
          simp [release, offer, setIssuer, withIssuers, hold, hresult, hmetadata]
        _ = b := release_offer hclean hadmits.idle hadmits.found
    have hstill : (offer b envelope b.pendingResult b.pendingMetadata issuer next).unsettled = false := hsettled
    simp only [h]
    rw [if_neg (by rw [hstill]; exact Bool.false_ne_true)]
    simp only [hback]
    exact .stay
  · simp only [h]
    have hself : { (offer b envelope b.pendingResult b.pendingMetadata issuer next).lands following with
        pendingCommand := none } =
        (offer b envelope b.pendingResult b.pendingMetadata issuer next).land following false := by
      simp [offer, setIssuer, withIssuers, hold, lands, land, hresult, hmetadata, hsettled]
    rw [hself]
    exact .committed _ cut following false hadmits.idle hprepares hstage
  · simp only [h]
    exact .unknown _ cut following landed hadmits.idle hprepares hstage

theorem move_of_commitMetadata (hclean : b.Clean) (hadmits : Admits b envelope.id issuer)
    {change : ValidatedMetadataUpdate × MetadataResult} (hmanual : envelope.manual = none)
    (hchecked : Checked enc stores b (some change.1)) (host : MetadataHost) :
    Move enc stores b (b.commitMetadata enc host envelope issuer change).bundle := by
  obtain ⟨hsettled, hpending⟩ := isIdle_iff.mp hadmits.idle
  unfold commitMetadata
  simp only
  split
  · exact .leaked envelope _ _ hadmits.idle
  next next hnext =>
  have hback : ((offer b envelope (some (.metadata change.2)) (some change.1) issuer next).setIssuer
      envelope.id.issuer issuer).release = b := release_offer hclean hadmits.idle hadmits.found
  have hstill : (offer b envelope (some (.metadata change.2)) (some change.1) issuer
      next).unsettled = false := hsettled
  rw [← offer, publishMaintenance]
  rcases hcheckpoint : (offer b envelope (some (.metadata change.2)) (some change.1) issuer
    next).checkpoint (offer b envelope (some (.metadata change.2)) (some change.1) issuer
    next).manualBranchId with error | kept
  · -- there is no branch to publish yet, and the command is taken back
    rw [checkpoint_eq_error hcheckpoint]
    simp only [hstill, hback]
    exact .stay
  have hprepares : Prepares enc stores b (offer b envelope (some (.metadata change.2)) (some change.1)
      issuer next) := by
    refine .held envelope issuer next _ _ hadmits.found hadmits.live hadmits.sequence hnext ?_ ?_ hchecked
    · rw [checkpoint, okOr_eq_ok] at hcheckpoint
      exact fun hnone => by cases hnone.symm.trans hcheckpoint
    · rw [hmanual]
      rfl
  simp only
  generalize host.attempt.map _ = attempt
  rcases (offer b envelope (some (.metadata change.2)) (some change.1) issuer next).publish_cases enc attempt
    with ⟨error, h⟩ | ⟨cut, following, hstage, h | ⟨landed, h⟩⟩
  · simp only [h]
    split
    · rw [hback]
      exact .stay
    · exact move_of_refused hadmits.idle hprepares ⟨rfl, rfl, rfl, rfl, rfl⟩ rfl (.inr rfl)
        (Option.some_ne_none envelope)
  · simp only [h]
    have hself : ((offer b envelope (some (.metadata change.2)) (some change.1) issuer next).lands
        following).release = (offer b envelope (some (.metadata change.2)) (some change.1) issuer
        next).land following false := by
      simp [release, lands, land, hstill]
    rw [hself]
    exact .committed _ cut following false hadmits.idle hprepares hstage
  · simp only [h]
    exact .unknown _ cut following landed hadmits.idle hprepares hstage

end Committing

/-! ## All calls -/

theorem move_of_command (hclean : b.Clean) (host : CommandHost) (envelope : CommandEnvelope) :
    Move enc stores b (b.command enc host envelope).bundle := by
  unfold command
  split
  · exact .stay
  rcases host.ready with error | ⟨⟩
  · exact .stay
  rcases b.receiptLookup enc host.reads envelope with error | lookup
  · exact .stay
  simp only [Done.check]
  split
  · exact .stay
  rcases hchecks : b.commandChecks enc host envelope with error | ⟨issuer, next, result⟩
  · exact .stay
  obtain ⟨hadmits, hnext, hbranch, hmanual⟩ := admits_of_commandChecks hchecks
  exact move_of_commitCommand hclean hadmits hnext hbranch hmanual host result

theorem move_of_admittedHistory (hclean : b.Clean) (host : CommandHost) (envelope : CommandEnvelope)
    (inputs : ObjectRef) : Move enc stores b (b.admittedHistory enc host envelope inputs).bundle := by
  unfold admittedHistory
  rcases b.receiptLookup enc host.reads envelope with error | lookup
  · exact .stay
  simp only [Done.check]
  split
  · exact .stay
  rcases hchecks : b.admittedChecks enc host envelope inputs with error | issuer
  · exact .stay
  obtain ⟨hadmits, hbranch, horigin⟩ := admits_of_admittedChecks hchecks
  exact move_of_commitAdmitted hclean hadmits hbranch horigin host

/-- The command that a metadata command is committed as. -/
theorem of_metadataCommandOf {host : MetadataHost} {metadata : MetadataEnvelope}
    {scope : MetadataScope} {update : MetadataUpdate} {envelope : CommandEnvelope}
    (h : b.metadataCommandOf enc host metadata scope update = .ok envelope) :
    envelope.id = metadata.id ∧ envelope.manual = none ∧ envelope.action = "metadata" := by
  simp only [metadataCommandOf, bind_eq_ok, MetadataEnvelope.receiptEnvelope] at h
  obtain ⟨⟨⟩, _, ⟨⟩, _, ⟨⟩, _, ⟨⟩, _, hend⟩ := h
  cases hend
  exact ⟨rfl, rfl, rfl⟩

theorem move_of_metadataCommand (hclean : b.Clean) (host : MetadataHost) (hhost : stores host.store)
    (metadata : MetadataEnvelope) (scope : MetadataScope) (update : MetadataUpdate) :
    Move enc stores b (b.metadataCommand enc host metadata scope update).bundle := by
  unfold metadataCommand
  rcases henvelope : b.metadataCommandOf enc host metadata scope update with error | envelope
  · exact .stay
  obtain ⟨hid, hmanual, _⟩ := of_metadataCommandOf henvelope
  simp only [Done.check]
  rcases b.receiptLookup enc host.reads envelope with error | lookup
  · exact .stay
  simp only
  split
  · exact .stay
  rcases hchecks : b.metadataChecks enc host metadata update with error | ⟨issuer, change⟩
  · exact .stay
  obtain ⟨hadmits, _, hchange⟩ := admits_of_metadataChecks hchecks
  rw [← hid] at hadmits
  refine move_of_commitMetadata hclean hadmits hmanual ?_ host
  rintro _ ⟨⟩
  exact ⟨host.store, hhost, metadata, update, change.2, hchange⟩

theorem move_of_reconcileCommand (reads : Except BundleError Unit) :
    Move enc stores b (b.reconcileCommand reads).1 := by
  cases reads with
  | error error => exact .unsettled
  | ok _ =>
    rcases hdisk : b.disk with _ | published
    · have hdropped : Move enc stores b { b.release with unsettled := false } := .dropped hdisk
      have hunsettled : Move enc stores b { b with unsettled := true } := .unsettled
      by_cases hroot : b.held.root = none
      · simpa [reconcileCommand, reconcileDestination, hdisk, hroot, release] using hdropped
      · simpa [reconcileCommand, reconcileDestination, hdisk, hroot] using hunsettled
    · have hloaded : Move enc stores b { b.release with held := published, unsettled := false } :=
        .reconciled published hdisk
      simpa [reconcileCommand, reconcileDestination, hdisk, release] using hloaded

/-- Every call is a move, unless it takes an identity that is there already. -/
theorem move_of_run (hclean : b.Clean) (call : Call) (hmeets : call.Meets stores) :
    Move enc stores b (call.run enc b).bundle ∨
      call.Takes b ∧ ∃ issuers, (call.run enc b).bundle = b.withIssuers issuers := by
  cases call with
  | issueIssuer host fresh first => exact move_of_issueIssuer hclean host fresh first
  | acknowledgeIssuer host id through => exact .inl (move_of_acknowledgeIssuer hclean host id through)
  | retireIssuer host id forget => exact .inl (move_of_retireIssuer hclean host id forget)
  | command host envelope => exact .inl (move_of_command hclean host envelope)
  | admittedHistory host envelope inputs =>
    exact .inl (move_of_admittedHistory hclean host envelope inputs)
  | metadataCommand host envelope scope update =>
    exact .inl (move_of_metadataCommand hclean host hmeets envelope scope update)
  | reconcileCommand reads => exact .inl (move_of_reconcileCommand reads)

end Kinewright.Bundle
