import Kinewright.Lib.Lists
import Kinewright.Model.Document

/-!
# What an incident is about

`incident.rs`: the codes that a failure classifies as, each with the string under which it is written,
the subjects of incidents, and the typed facts that an incident was opened from.
-/

namespace Kinewright.Incidents

open Model

/-! ## Codes -/

inductive SourceColorIncident
  | unknownPrimaries | unknownTransfer | unknownMatrix | unknownRange | unknownBitDepth
  | unsupportedPrimaries | unsupportedTransfer | unsupportedMatrix | unsupportedRange
  | unsupportedWhitePoint | unsupportedBitDepth | unsupportedCombination | unknownWhitePoint
deriving DecidableEq

def SourceColorIncident.code : SourceColorIncident → String
  | .unknownPrimaries => "unknown_source_primaries"
  | .unknownTransfer => "unknown_source_transfer"
  | .unknownMatrix => "unknown_source_matrix"
  | .unknownRange => "unknown_source_range"
  | .unknownBitDepth => "unknown_source_bit_depth"
  | .unsupportedPrimaries => "unsupported_source_primaries"
  | .unsupportedTransfer => "unsupported_source_transfer"
  | .unsupportedMatrix => "unsupported_source_matrix"
  | .unsupportedRange => "unsupported_source_range"
  | .unsupportedWhitePoint => "unsupported_source_white_point"
  | .unsupportedBitDepth => "unsupported_source_bit_depth"
  | .unsupportedCombination => "unsupported_source_combination"
  | .unknownWhitePoint => "unknown_source_white_point"

inductive MediaIncident
  | unsupportedDecoderFormat | backendUnclassified
deriving DecidableEq

def MediaIncident.code : MediaIncident → String
  | .unsupportedDecoderFormat => "unsupported_decoder_format"
  | .backendUnclassified => "media_backend_unclassified"

inductive DeliveryColorIncident
  | unsupportedCodec | unsupportedField | pixelFormatDepthMismatch | encoderPixelFormatUnavailable
deriving DecidableEq

def DeliveryColorIncident.code : DeliveryColorIncident → String
  | .unsupportedCodec => "unsupported_delivery_codec"
  | .unsupportedField => "unsupported_delivery_color"
  | .pixelFormatDepthMismatch => "delivery_pixel_format_depth_mismatch"
  | .encoderPixelFormatUnavailable => "delivery_encoder_pixel_format_unavailable"

inductive DeliveryVerificationIncident
  | notFullResolution | planeOutOfContainer | frameCountMismatch | frameCountOutOfRange
  | budgetLaneMismatch
deriving DecidableEq

def DeliveryVerificationIncident.code : DeliveryVerificationIncident → String
  | .notFullResolution => "delivery_verification_not_full_resolution"
  | .planeOutOfContainer => "delivery_verification_plane_out_of_container"
  | .frameCountMismatch => "delivery_verification_frame_count_mismatch"
  | .frameCountOutOfRange => "delivery_verification_frame_count_out_of_range"
  | .budgetLaneMismatch => "delivery_verification_budget_lane_mismatch"

inductive ColorQcIncident
  | proxyProofRefused | rasterLengthMismatch | emptyPopulation | nodeBudgetExceeded
  | matteRegionRasterMismatch | nodeRemovalRejected
deriving DecidableEq

def ColorQcIncident.code : ColorQcIncident → String
  | .proxyProofRefused => "color_qc_proxy_proof_refused"
  | .rasterLengthMismatch => "color_qc_raster_length_mismatch"
  | .emptyPopulation => "color_qc_region_empty"
  | .nodeBudgetExceeded => "color_qc_node_budget_exceeded"
  | .matteRegionRasterMismatch => "color_qc_matte_region_raster_mismatch"
  | .nodeRemovalRejected => "color_qc_node_removal_rejected"

/-- The family of a rejected edit. -/
inductive IncidentFamily
  | bounds | malformed | duplicate | placement | missing | structural | relink | unrepresentable
  | unknownName | internal | colorPolicy
deriving DecidableEq

def IncidentFamily.code : IncidentFamily → String
  | .bounds => "operation_bounds"
  | .malformed => "operation_malformed"
  | .duplicate => "operation_duplicate"
  | .placement => "operation_placement"
  | .missing => "operation_missing"
  | .structural => "operation_structure"
  | .relink => "operation_relink"
  | .unrepresentable => "operation_unrepresentable"
  | .unknownName => "operation_unknown_name"
  | .internal => "operation_internal"
  | .colorPolicy => "operation_color_policy"

inductive RejectionIncident
  | editPlan | deliveryVariant | agentBranch | sourceEdit | relink | projectSave | captionPlan
deriving DecidableEq

def RejectionIncident.code : RejectionIncident → String
  | .editPlan => "edit_plan_rejected"
  | .deliveryVariant => "delivery_variant_rejected"
  | .agentBranch => "agent_branch_rejected"
  | .sourceEdit => "source_edit_rejected"
  | .relink => "relink_rejected"
  | .projectSave => "project_save_failed"
  | .captionPlan => "caption_plan_rejected"

inductive LabelIncident
  | operations | look | lookIncomplete | export | sourceMonitor | relink | agentBranch
  | transcriptEdit | media | mediaIncomplete | agent | recording | project | captions | mixer
  | mediaCache | timeline | panelWorkerError | recoveryDamage | recoveryUnavailable
  | projectNewerFormat | sidecarUnknownCodes | sidecarRefused | sidecarWriteFailed
deriving DecidableEq

def LabelIncident.code : LabelIncident → String
  | .operations => "operations_unclassified"
  | .look => "look_unclassified"
  | .lookIncomplete => "look_incomplete"
  | .export => "export_unclassified"
  | .sourceMonitor => "source_monitor_unclassified"
  | .relink => "relink_unclassified"
  | .agentBranch => "agent_branch_unclassified"
  | .transcriptEdit => "transcript_edit_unclassified"
  | .media => "media_unclassified"
  | .mediaIncomplete => "media_incomplete"
  | .agent => "agent_unclassified"
  | .recording => "recording_unclassified"
  | .project => "project_unclassified"
  | .captions => "captions_unclassified"
  | .mixer => "mixer_unclassified"
  | .mediaCache => "media_cache_unclassified"
  | .timeline => "timeline_unclassified"
  | .panelWorkerError => "panel_worker_error"
  | .recoveryDamage => "recovery_damage"
  | .recoveryUnavailable => "recovery_unavailable"
  | .projectNewerFormat => "project_newer_format"
  | .sidecarUnknownCodes => "sidecar_unknown_codes"
  | .sidecarRefused => "sidecar_refused"
  | .sidecarWriteFailed => "sidecar_write_failed"

inductive IncidentCode
  | sourceColor (incident : SourceColorIncident)
  | media (incident : MediaIncident)
  | deliveryColor (incident : DeliveryColorIncident)
  | deliveryVerification (incident : DeliveryVerificationIncident)
  | colorQc (incident : ColorQcIncident)
  | operation (family : IncidentFamily)
  | lutAssetPolicy
  | editRevisionConflict
  | rejection (incident : RejectionIncident)
  | label (incident : LabelIncident)
deriving DecidableEq

namespace IncidentCode

def code : IncidentCode → String
  | .sourceColor incident => incident.code
  | .media incident => incident.code
  | .deliveryColor incident => incident.code
  | .deliveryVerification incident => incident.code
  | .colorQc incident => incident.code
  | .operation family => family.code
  | .lutAssetPolicy => "lut_asset_policy"
  | .editRevisionConflict => "edit_revision_conflict"
  | .rejection incident => incident.code
  | .label incident => incident.code

/-- The codes in the order of the rows of `POLICY`. -/
def policy : List IncidentCode :=
  List.flatten [List.map sourceColor [.unknownPrimaries, .unknownTransfer, .unknownMatrix, .unknownRange,
      .unknownBitDepth, .unsupportedPrimaries, .unsupportedTransfer, .unsupportedMatrix,
      .unsupportedRange, .unsupportedWhitePoint, .unsupportedBitDepth, .unsupportedCombination,
      .unknownWhitePoint],
    List.map media [.unsupportedDecoderFormat, .backendUnclassified],
    List.map deliveryColor [.unsupportedCodec, .unsupportedField, .pixelFormatDepthMismatch,
      .encoderPixelFormatUnavailable],
    List.map deliveryVerification [.notFullResolution, .planeOutOfContainer, .frameCountMismatch,
      .frameCountOutOfRange, .budgetLaneMismatch],
    List.map colorQc [.proxyProofRefused, .rasterLengthMismatch, .emptyPopulation,
      .nodeBudgetExceeded, .matteRegionRasterMismatch, .nodeRemovalRejected],
    List.map operation [.bounds, .malformed, .duplicate, .placement, .missing, .structural, .relink,
      .unrepresentable, .unknownName, .internal, .colorPolicy],
    [lutAssetPolicy, editRevisionConflict],
    List.map rejection [.editPlan, .deliveryVariant, .agentBranch, .sourceEdit, .relink, .projectSave, .captionPlan],
    List.map label [.operations, .look, .lookIncomplete, .export, .sourceMonitor, .relink,
      .agentBranch, .transcriptEdit, .media, .mediaIncomplete, .agent, .recording, .project,
      .captions, .mixer, .mediaCache, .timeline, .panelWorkerError, .recoveryDamage,
      .recoveryUnavailable, .projectNewerFormat, .sidecarUnknownCodes, .sidecarRefused,
      .sidecarWriteFailed]]

/-- `from_code`: the first row of the policy table with that code. -/
def fromCode (text : String) : Option IncidentCode := policy.find? fun entry => entry.code = text

theorem code_of_fromCode {text : String} {entry : IncidentCode} (h : fromCode text = some entry) :
    entry.code = text := by
  have hcode := List.find?_some (p := fun entry => decide (code entry = text)) h
  exact of_decide_eq_true hcode

end IncidentCode

/-! ## Subjects and evidence -/

inductive AudioChain
  | bus (bus : AudioBusId)
  | master
deriving DecidableEq

/-- The axis on which two failures are one problem. -/
inductive IncidentSubject
  | asset (asset : AssetId)
  | lutAsset (lut : LutAssetId)
  | clip (clip : ClipId)
  | track (track : TrackId)
  | chain (chain : AudioChain)
  | exportJob
  | project
  | agent
deriving DecidableEq

inductive ColorSourceProfileAssumption
  | d65
deriving DecidableEq

inductive IncidentEvidence
  | sourceColor (probed : ColorDescription) (assumption : Option ColorSourceProfileAssumption)
  | plain
  | opError (family : IncidentFamily) (opNumber : Option ℕ) (message : String)
  | mediaError (code message : String)
  | revision (expected actual : ℕ)
  | sourceEdit (reason : String)
  | relink (reason : String)
  | projectSave (reason : String)
  | branch (reason : String)
  | captionPlan (reason : String)
  | deliveryVariant (reason : String)
deriving DecidableEq

end Kinewright.Incidents
