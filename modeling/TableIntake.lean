import TableIntake.Log.Session
import TableIntake.Main
import TableIntake.Scratch.Pool
import TableIntake.Proofs.Archive.Items
import TableIntake.Proofs.Archive.TarItems
import TableIntake.Proofs.Archive.ZipItems
import TableIntake.Proofs.Batch.Chronicles
import TableIntake.Proofs.Batch.Containers
import TableIntake.Proofs.Batch.Crews
import TableIntake.Proofs.Batch.Grounds
import TableIntake.Proofs.Batch.Halves
import TableIntake.Proofs.Batch.Misnamed
import TableIntake.Proofs.Batch.Names
import TableIntake.Proofs.Batch.Suffixes
import TableIntake.Proofs.Batch.Thresholds
import TableIntake.Proofs.Batch.Traceless
import TableIntake.Proofs.Batch.Verdicts
import TableIntake.Proofs.Check.Acceptance
import TableIntake.Proofs.Check.Appending
import TableIntake.Proofs.Check.Dialects
import TableIntake.Proofs.Check.Embedded
import TableIntake.Proofs.Check.Numbering
import TableIntake.Proofs.Check.Restyling
import TableIntake.Proofs.Check.Sites
import TableIntake.Proofs.Check.Untyped
import TableIntake.Proofs.Check.Widening
import TableIntake.Proofs.Command.Agreement
import TableIntake.Proofs.Command.Answers
import TableIntake.Proofs.Command.Settings
import TableIntake.Proofs.Files.Additions
import TableIntake.Proofs.Files.Stopping
import TableIntake.Proofs.Findings
import TableIntake.Proofs.Grammar.Segments
import TableIntake.Proofs.Json.Kept
import TableIntake.Proofs.Json.Numerals
import TableIntake.Proofs.Json.RoundTrip
import TableIntake.Proofs.Json.Strings
import TableIntake.Proofs.Lexical.Literals
import TableIntake.Proofs.Lexical.Patterns
import TableIntake.Proofs.Log.Alike
import TableIntake.Proofs.Log.Lines
import TableIntake.Proofs.Log.Lives
import TableIntake.Proofs.Log.Tellings
import TableIntake.Proofs.Scratch.Entries
import TableIntake.Proofs.Scratch.Requests
import TableIntake.Proofs.Scratch.Sharing
import TableIntake.Proofs.Scratch.Sites
import TableIntake.Proofs.Scratch.Undoing
import TableIntake.Proofs.Text.ByteOrder
