import Redstone.Artifact.Decode
import Redstone.Artifact.Digest
import Redstone.Artifact.Encode
import Redstone.Artifact.Format
import Redstone.Block.Basic
import Redstone.Block.Id
import Redstone.Block.Material
import Redstone.Circuit.Basic
import Redstone.Circuit.Drawing
import Redstone.Circuit.Edit
import Redstone.Circuit.Power
import Redstone.Command.Build
import Redstone.Command.Flags
import Redstone.Command.Inspect
import Redstone.Command.Transcript
import Redstone.Compile
import Redstone.DisjointSets
import Redstone.Files.Directory
import Redstone.Files.Stream
import Redstone.Gate.Basic
import Redstone.Gate.Logic
import Redstone.Main
import Redstone.Netlist.Basic
import Redstone.Netlist.Flatten
import Redstone.Netlist.ForwardLink
import Redstone.Netlist.Listing
import Redstone.Netlist.Settle
import Redstone.Optimize.AnalogBuses
import Redstone.Optimize.ClampedLosses
import Redstone.Optimize.DeadLinks
import Redstone.Optimize.Duplicates
import Redstone.Optimize.FoldedConstants
import Redstone.Optimize.Orphans
import Redstone.Optimize.ParallelLinks
import Redstone.Optimize.Revision
import Redstone.Optimize.SettledOutputs
import Redstone.Optimize.SharedConstants
import Redstone.Pipeline.Monitor
import Redstone.Pipeline.Pass
import Redstone.Pipeline.Passes
import Redstone.Pipeline.Run
import Redstone.Pipeline.Settings
import Redstone.Proofs.Artifact.Canonical
import Redstone.Proofs.Artifact.RoundTrip
import Redstone.Proofs.Artifact.Truncation
import Redstone.Proofs.Block.Id
import Redstone.Proofs.Circuit.Balance
import Redstone.Proofs.Circuit.Cascade
import Redstone.Proofs.Circuit.Gates
import Redstone.Proofs.Circuit.Lineage
import Redstone.Proofs.Circuit.Power
import Redstone.Proofs.Circuit.Range
import Redstone.Proofs.Circuit.Refinement
import Redstone.Proofs.Circuit.Relocation
import Redstone.Proofs.Circuit.Sessions
import Redstone.Proofs.Circuit.Upkeep
import Redstone.Proofs.Circuit.Views
import Redstone.Proofs.Circuit.WellFormed
import Redstone.Proofs.Compile
import Redstone.Proofs.Crowding
import Redstone.Proofs.Deduplication
import Redstone.Proofs.DisjointSets
import Redstone.Proofs.DisjointSets.Calls
import Redstone.Proofs.Equivariance
import Redstone.Proofs.Gate
import Redstone.Proofs.Netlist.Acyclic
import Redstone.Proofs.Netlist.Faithful
import Redstone.Proofs.Netlist.Flatten
import Redstone.Proofs.Netlist.Forward
import Redstone.Proofs.Netlist.Relocation
import Redstone.Proofs.Netlist.Rounds
import Redstone.Proofs.Netlist.Settle
import Redstone.Proofs.Netlist.Steady
import Redstone.Proofs.Optimize.AnalogBuses
import Redstone.Proofs.Optimize.BusIdiom
import Redstone.Proofs.Optimize.Constants
import Redstone.Proofs.Optimize.DeadLinks
import Redstone.Proofs.Optimize.Distinct
import Redstone.Proofs.Optimize.Duplicates
import Redstone.Proofs.Optimize.Exhaustion
import Redstone.Proofs.Optimize.Folding
import Redstone.Proofs.Optimize.Gates
import Redstone.Proofs.Optimize.Links
import Redstone.Proofs.Optimize.Orphans
import Redstone.Proofs.Optimize.ParallelLinks
import Redstone.Proofs.Optimize.Pendants
import Redstone.Proofs.Optimize.Quotient
import Redstone.Proofs.Optimize.Range
import Redstone.Proofs.Optimize.Relocation
import Redstone.Proofs.Optimize.Roles
import Redstone.Proofs.Optimize.Servers
import Redstone.Proofs.Optimize.SettledOutputs
import Redstone.Proofs.Optimize.SharedConstants
import Redstone.Proofs.Optimize.Size
import Redstone.Proofs.Optimize.SteadyStates
import Redstone.Proofs.Optimize.Steps
import Redstone.Proofs.Optimize.Sweeps
import Redstone.Proofs.Optimize.Wires
import Redstone.Proofs.Outputs
import Redstone.Proofs.Pipeline.Protocol
import Redstone.Proofs.Pipeline.Run
import Redstone.Proofs.Preparation
import Redstone.Proofs.Provenance
import Redstone.Proofs.Space.Region
import Redstone.Proofs.Space.Sweep
import Redstone.Proofs.Strict.Constants
import Redstone.Proofs.Strict.Edits
import Redstone.Proofs.Strict.Nodes
import Redstone.Proofs.Strict.Passes
import Redstone.Proofs.Strict.SharedConstants
import Redstone.Proofs.Survey.Components
import Redstone.Proofs.Survey.Feeds
import Redstone.Proofs.Survey.Lamps
import Redstone.Proofs.Survey.Networks
import Redstone.Proofs.Survey.Scan
import Redstone.Proofs.Survey.Sides
import Redstone.Proofs.Survey.Translation
import Redstone.Proofs.Survey.Wiring
import Redstone.Proofs.World.Composition
import Redstone.Proofs.World.Reader
import Redstone.Proofs.World.Translation
import Redstone.Proofs.World.Written
import Redstone.Report.Log
import Redstone.Report.Timing
import Redstone.Space.Direction
import Redstone.Space.Position
import Redstone.Space.Region
import Redstone.Survey.Components
import Redstone.Survey.Feeds
import Redstone.Survey.Wiring
import Redstone.Text.Blank
import Redstone.Text.Bytes
import Redstone.Text.Duration
import Redstone.Text.Integer
import Redstone.Text.Percentage
import Redstone.Text.Printable
import Redstone.Text.Quoted
import Redstone.Text.Superscript
import Redstone.Text.Table
import Redstone.Text.Truth
import Redstone.World.Basic
import Redstone.World.Reader
