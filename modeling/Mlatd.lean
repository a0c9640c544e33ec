import Mlatd.Lib.Finmap
import Mlatd.Lib.MergeBy
import Mlatd.Lib.Run
import Mlatd.Lib.Ledger
import Mlatd.Lib.Spelt
import Mlatd.Lib.F64
import Mlatd.Lib.Vec
import Mlatd.Lib.Hex
import Mlatd.Lib.CellTree
import Mlatd.Lib.Ema
import Mlatd.Lib.TextLine
import Mlatd.Lib.Streaming
import Mlatd.Lib.Incremental
import Mlatd.Lib.Broadcast
import Mlatd.Lib.Regression
import Mlatd.Lib.Exact
import Mlatd.Lib.Grid
import Mlatd.Lib.PowerIteration
import Mlatd.Lib.PlaneMap
import Mlatd.Lib.Selection
import Mlatd.Core
import Mlatd.Modes.Decode
import Mlatd.Modes.Cpr
import Mlatd.Modes.CprExact
import Mlatd.Modes.CprRoundTrip
import Mlatd.ClockSync
import Mlatd.Track
import Mlatd.Solve
import Mlatd.Solve.Lobes
import Mlatd.Solve.Newton
import Mlatd.Solve.Covariance
import Mlatd.Solve.Mirror
import Mlatd.Solve.Symmetry
import Mlatd.Solve.Truth
import Mlatd.State.Basic
import Mlatd.State.Receivers
import Mlatd.State.Messages
import Mlatd.State.Convert
import Mlatd.State.Cluster
import Mlatd.State.Vectors
import Mlatd.State.Export
import Mlatd.Shard
import Mlatd.Shard.Turns
import Mlatd.Router
import Mlatd.Territory
import Mlatd.Territory.Cells
import Mlatd.Territory.Antimeridian
import Mlatd.Territory.Export
import Mlatd.Server
import Mlatd.Output
import Mlatd.Traffic
import Mlatd.Framing
import Mlatd.Bias
import Mlatd.Sample
import Mlatd.Registry.Frame
import Mlatd.Registry.SweepFrame
import Mlatd.Registry.Slots
import Mlatd.Registry.Invariant
import Mlatd.Registry.Handles
import Mlatd.Registry.Identity
import Mlatd.ClockDomain.Provenance
import Mlatd.ClockDomain.Hygiene
import Mlatd.ClockDomain.Exact
import Mlatd.ClockDomain.Regression
import Mlatd.ClockDomain.Scatter
import Mlatd.ClockDomain.Training
import Mlatd.ClockDomain.Repeats
import Mlatd.ClockDomain.Routes
import Mlatd.ClockDomain.Jump
import Mlatd.Tracks.Attempt
import Mlatd.Tracks.Publish
import Mlatd.Tracks.Gate
import Mlatd.Tracks.Recipients
import Mlatd.Tracks.Expiry
import Mlatd.Tracks.Memory
import Mlatd.Tracks.Agree
import Mlatd.Tracks.Discipline
import Mlatd.Tracks.Veil
import Mlatd.Tracks.Refused
import Mlatd.Tracks.Clusters
import Mlatd.Tracks.Prediction
import Mlatd.Tracks.Residuals
import Mlatd.Tracks.Smoothing
import Mlatd.Tracks.Stability
import Mlatd.Tracks.Arrivals
import Mlatd.Spelling.Runs
import Mlatd.Tracks.Counters
import Mlatd.Traffic.Asked
import Mlatd.Traffic.Cap
import Mlatd.Traffic.Address
import Mlatd.Modes.Parity
import Mlatd.Output.Lines
import Mlatd.Output.Sbs
import Mlatd.Server.Steps
import Mlatd.Server.Names
import Mlatd.Server.Connections
import Mlatd.Framing.RoundTrip
import Mlatd.Framing.Reader
import Mlatd.Client
import Mlatd.Uplink
import Mlatd.Server.Handshake
import Mlatd.Server.Writer
import Mlatd.Server.Results
import Mlatd.Server.Sbs
import Mlatd.Server.WorkDir
