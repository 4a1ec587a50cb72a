import Sluice.Codec.Blocks
import Sluice.Codec.Echo
import Sluice.Command.Disk
import Sluice.Command.Run
import Sluice.Engine
import Sluice.Frame.Session
import Sluice.Main
import Sluice.Proofs.Bytes
import Sluice.Proofs.Turns
import Sluice.Proofs.Text.Rounding
import Sluice.Proofs.Text.Sizes
import Sluice.Proofs.Cursor
import Sluice.Proofs.StatusWords
import Sluice.Proofs.Bounds
import Sluice.Proofs.Step
import Sluice.Proofs.Slices
import Sluice.Proofs.Relay
import Sluice.Proofs.AccessFailures
import Sluice.Proofs.Settings
import Sluice.Proofs.Configure
import Sluice.Proofs.Session.Registry
import Sluice.Proofs.Session.Generations
import Sluice.Proofs.Session.Operations
import Sluice.Proofs.Engine.Calls
import Sluice.Proofs.Engine.Isolation
import Sluice.Proofs.Engine.Rejections
import Sluice.Proofs.Engine.Foreign
import Sluice.Proofs.Engine.Warnings
import Sluice.Proofs.Codec.Contract
import Sluice.Proofs.Codec.Streaming
import Sluice.Proofs.Codec.Packing
import Sluice.Proofs.Codec.Metered
import Sluice.Proofs.Codec.Queued
import Sluice.Proofs.Stream.Sink
import Sluice.Proofs.Stream.Source
import Sluice.Proofs.Stream.Moves
import Sluice.Proofs.Stream.WriterCalls
import Sluice.Proofs.Stream.Holes
import Sluice.Proofs.Stream.Accounts
import Sluice.Proofs.Stream.Counts
import Sluice.Proofs.Stream.Staging
import Sluice.Proofs.Stream.Termination
import Sluice.Proofs.Stream.Reads
import Sluice.Proofs.Stream.ReadMoves
import Sluice.Proofs.Stream.Endings
import Sluice.Proofs.Stream.Intake
import Sluice.Proofs.Stream.Retries
import Sluice.Proofs.Stream.CutPoints
import Sluice.Proofs.Stream.RoundTrip
import Sluice.Proofs.Stream.Yields
import Sluice.Proofs.Stream.AnyCut
import Sluice.Proofs.Command.Attempts
import Sluice.Proofs.Command.Verdict
