import CompileJournal.Main
import CompileJournal.Session
import CompileJournal.Proofs.Words.RoundTrip
import CompileJournal.Proofs.CommandLine.Segments
import CompileJournal.Proofs.Disk.Lookup
import CompileJournal.Proofs.Path.Pieces
import CompileJournal.Proofs.Disk.Changes
import CompileJournal.Proofs.World.Growth
import CompileJournal.Proofs.Journal.Beside
import CompileJournal.Proofs.Journal.Access
import CompileJournal.Proofs.Journal.Change
import CompileJournal.Proofs.Journal.Ready
import CompileJournal.Proofs.Journal.Stores
import CompileJournal.Proofs.World.Lookup
import CompileJournal.Proofs.Commands.Recording
import CompileJournal.Proofs.CommandLine.OwnFlags
import CompileJournal.Proofs.CommandLine.RecordRun
import CompileJournal.Proofs.CommandLine.Transparent
import CompileJournal.Proofs.Journal.Calm
import CompileJournal.Proofs.World.Writing
import CompileJournal.Proofs.Commands.Lasting
import CompileJournal.Proofs.CommandLine.LaterRuns
import CompileJournal.Proofs.CommandLine.ReplayRun
import CompileJournal.Proofs.CommandLine.Recall
import CompileJournal.Proofs.CommandLine.Bookkeeping
import CompileJournal.Proofs.Journal.Sharing
import CompileJournal.Proofs.Journal.Answers
import CompileJournal.Proofs.Journal.Opening
import CompileJournal.Proofs.Journal.Using
import CompileJournal.Proofs.Journal.Outsiders
import CompileJournal.Proofs.Sessions.Steps
import CompileJournal.Proofs.Sessions.Journals
import CompileJournal.Proofs.Sessions.Refinement
import CompileJournal.Proofs.Journal.Recollection
import CompileJournal.Proofs.Sessions.Failures
import CompileJournal.Proofs.Journal.Turns
import CompileJournal.Proofs.Journal.InStep
import CompileJournal.Proofs.Commands.Interleaving
import CompileJournal.Proofs.Arguments.Pairing
import CompileJournal.Proofs.Commands.Rerecording
import CompileJournal.Proofs.Commands.SameCompile
import CompileJournal.Proofs.Journal.Arrivals
import CompileJournal.Proofs.CommandLine.Footprint
import CompileJournal.Proofs.CommandLine.Histories
import CompileJournal.Proofs.CommandLine.DryRun
import CompileJournal.Proofs.Arguments.Positions
import CompileJournal.Proofs.Commands.Naming
import CompileJournal.Proofs.Commands.Refusals
import CompileJournal.Proofs.CommandLine.FoundInputs
import CompileJournal.Proofs.CommandLine.Escapes
import CompileJournal.Proofs.CommandLine.Cut
import CompileJournal.Proofs.Json.Reader
import CompileJournal.Proofs.Json.RoundTrip
import CompileJournal.Proofs.Commands.Exporting
import CompileJournal.Proofs.Journal.Accepting
import CompileJournal.Proofs.Commands.Prefixes
import CompileJournal.Proofs.Arguments.Streams
import CompileJournal.Proofs.Words.Quoting
import CompileJournal.Proofs.CommandLine.Printed
import CompileJournal.Proofs.Words.Grammar
import CompileJournal.Proofs.Commands.Damage
import CompileJournal.Proofs.Arguments.Cuts
import CompileJournal.Proofs.Arguments.Attached
import CompileJournal.Proofs.World.Directories
import CompileJournal.Proofs.Journal.Leftovers
import CompileJournal.Proofs.Commands.Reopening
import CompileJournal.Proofs.Commands.Undisturbed
