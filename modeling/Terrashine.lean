import Terrashine.Library.Machine
import Terrashine.Library.UrlOrigin
import Terrashine.Model.Database
import Terrashine.Model.Calls
import Terrashine.Program.Refresh
import Terrashine.Program.Version
import Terrashine.Program.Artifacts
import Terrashine.Interface.Deployment
import Terrashine.Analysis.FirstAnswer
import Terrashine.Analysis.RefresherHistory
import Terrashine.Analysis.Upstream
import Terrashine.Analysis.RefresherPanics
import Terrashine.Analysis.TokenScope
import Terrashine.Analysis.Effects
import Terrashine.Analysis.Growth
import Terrashine.Analysis.LaterAnswers
import Terrashine.Analysis.IndexRequests
import Terrashine.Analysis.RefresherRounds
import Terrashine.Analysis.ChannelProtocol
import Terrashine.Analysis.MessageLife
import Terrashine.Analysis.Refusals
import Terrashine.Analysis.Connections
import Terrashine.Analysis.Progress
import Terrashine.Analysis.BodyLimit
import Terrashine.Analysis.VersionAnswers
import Terrashine.Analysis.CredentialStores
import Terrashine.Analysis.Upload
import Terrashine.Analysis.UpstreamAddresses
import Terrashine.Library.UrlAuthority
import Terrashine.Library.UrlRoundTrip
import Terrashine.Analysis.RedirectUrl
import Terrashine.Analysis.Shutdown
import Terrashine.Analysis.ArtifactProtocol
import Terrashine.Analysis.StoredArtifacts
import Terrashine.Analysis.ArtifactIds
import Terrashine.Analysis.ServedArtifacts
import Terrashine.Analysis.ArtifactRaces
import Terrashine.Library.Moments
import Terrashine.Interface.Mirror
import Terrashine.Analysis.ShortRequests
import Terrashine.Analysis.MirrorView
import Terrashine.Analysis.MirrorAnswers
import Terrashine.Library.PercentDecoding
import Terrashine.Library.Router
import Terrashine.Interface.Routing
import Terrashine.Analysis.Routes
import Terrashine.Analysis.ClientDownloads
import Terrashine.Library.Rounds
import Terrashine.Analysis.Clock
import Terrashine.Analysis.RefresherTurns
import Terrashine.Analysis.RefreshRate
import Terrashine.Library.MonotoneProtocols
import Terrashine.Analysis.TokenProvenance
import Terrashine.Library.Solo
import Terrashine.Analysis.InstanceSteps
import Terrashine.Analysis.Stopping
import Terrashine.Analysis.MessageOrder
import Terrashine.Analysis.BucketContents
