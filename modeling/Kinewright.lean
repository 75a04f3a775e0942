import Kinewright.Core.ReplayChain
import Kinewright.Core.Fence
import Kinewright.Media.Required
import Kinewright.Timeline.Split
import Kinewright.Media.LaneRuns
import Kinewright.Export.Lifecycle
import Kinewright.Incidents.Sessions
import Kinewright.Orchestration.Deliveries
import Kinewright.Orchestration.Lanes
import Kinewright.Bundle.Evidence
import Kinewright.Sidecar.Acks
import Kinewright.Attention.Answered
import Kinewright.Edits.Assumptions
import Kinewright.Edits.Reuse
import Kinewright.Edits.Windows
import Kinewright.Core.FloorSearch
import Kinewright.Core.Closing
import Kinewright.Edits.Attributes
import Kinewright.Edits.Removals
import Kinewright.Edits.Trims
import Kinewright.Edits.Slides
import Kinewright.Edits.Replacements
import Kinewright.Model.Covering
import Kinewright.Model.Envelopes
import Kinewright.Transcript.Cuts
import Kinewright.Multicam.Coverage
import Kinewright.Model.FormatVersion
import Kinewright.Captions.Spoken
import Kinewright.Captions.Sentences
import Kinewright.Captions.Applied
import Kinewright.Multicam.Containment
import Kinewright.Timeline.Audio
import Kinewright.Media.Planning
import Kinewright.Accounting.Clock
import Kinewright.Accounting.Totals
import Kinewright.Accounting.Sends
import Kinewright.Matte.Statistics
import Kinewright.Media.CacheRuns
import Kinewright.Orchestration.Framing
import Kinewright.Hash.Sha256
import Kinewright.Transcript.Silence
import Kinewright.Incidents.JsonLen
import Kinewright.Bundle.Budget
import Kinewright.Edits.Boundaries
