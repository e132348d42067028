import DrillPost.Job.Toml
import DrillPost.Main
import DrillPost.Proofs.Binary64.Nearest
import DrillPost.Proofs.Command.History
import DrillPost.Proofs.Command.Printing
import DrillPost.Proofs.Decimal.Layout
import DrillPost.Proofs.Decimal.Numeral
import DrillPost.Proofs.Decimal.Shortest
import DrillPost.Proofs.Decimal.Value
import DrillPost.Proofs.Files.Making
import DrillPost.Proofs.Files.Naming
import DrillPost.Proofs.Files.Staying
import DrillPost.Proofs.Files.Resolve
import DrillPost.Proofs.Gcode.Decimals
import DrillPost.Proofs.Gcode.Drilling
import DrillPost.Proofs.Gcode.Machine
import DrillPost.Proofs.Gcode.Placement
import DrillPost.Proofs.Gcode.Programs
import DrillPost.Proofs.Gcode.Progress
import DrillPost.Proofs.Gcode.Reading
import DrillPost.Proofs.Gcode.Stopping
import DrillPost.Proofs.Gcode.Word
import DrillPost.Proofs.Job.Grouping
import DrillPost.Proofs.Job.Merging
import DrillPost.Proofs.Job.Spelling
import DrillPost.Proofs.Job.Validation
import DrillPost.Proofs.Job.Written
import DrillPost.Proofs.Json.Literal
import DrillPost.Proofs.Json.Pretty
import DrillPost.Proofs.Json.Printed
import DrillPost.Proofs.Json.Reader
import DrillPost.Proofs.Json.Source
import DrillPost.Proofs.Json.Text
import DrillPost.Proofs.Settings.Json
import DrillPost.Proofs.Settings.Saving
import DrillPost.Proofs.Settings.Toml
import DrillPost.Proofs.Text.Reading
import DrillPost.Proofs.Text.Utf8
import DrillPost.Proofs.Toml.Document
import DrillPost.Proofs.Toml.Number
import DrillPost.Proofs.Toml.Statement
import DrillPost.Proofs.Toml.Text
import DrillPost.Proofs.Gcode.Replacing
import DrillPost.Proofs.Command.SinkName
import DrillPost.Proofs.Command.Repeating
import DrillPost.Proofs.Files.Beside
import DrillPost.Proofs.Gcode.Beside
import DrillPost.Proofs.Command.Replay
import DrillPost.Proofs.Json.Parts
import DrillPost.Proofs.Settings.Stated
import DrillPost.Proofs.Command.Precedence
import DrillPost.Proofs.Json.Compact
import DrillPost.Proofs.Job.Serialized
import DrillPost.Proofs.Command.LengthAgreement
import DrillPost.Proofs.Gcode.Streaming
import DrillPost.Proofs.Gcode.Names
import DrillPost.Proofs.Job.Forms
import DrillPost.Proofs.Json.Agreement
import DrillPost.Proofs.Job.Direct
import DrillPost.Proofs.Gcode.Showing
import DrillPost.Proofs.Job.FirstFault
import DrillPost.Proofs.Files.Inside
import DrillPost.Proofs.Command.Destination
import DrillPost.Proofs.Files.Ancestors
import DrillPost.Proofs.Settings.Keeping
import DrillPost.Proofs.Binary64.Closest
import DrillPost.Proofs.Decimal.Fewest
import DrillPost.Proofs.Decimal.Significant
import DrillPost.Proofs.Decimal.Rounded
import DrillPost.Proofs.Gcode.WordPattern
import DrillPost.Proofs.Gcode.WordDigits
import DrillPost.Proofs.Gcode.HeightWords
import DrillPost.Proofs.Log.Filter
import DrillPost.Proofs.Command.Insertion
import DrillPost.Proofs.Command.Verbosity
import DrillPost.Proofs.Command.LengthWord
