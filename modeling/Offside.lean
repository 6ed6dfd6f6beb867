import Offside.CommandLine.Folder
import Offside.CommandLine.Run
import Offside.Main
import Offside.NumberedLexer
import Offside.Session
import Offside.Proofs.Outline.Rendering
import Offside.Proofs.Stream.LineByLine
import Offside.Proofs.Stream.Nesting
import Offside.Proofs.Stream.Conservation
import Offside.Proofs.Outline.Sentences
import Offside.Proofs.Scanner.Pieces
import Offside.Proofs.Scanner.Variants
import Offside.Proofs.Stream.Blanks
import Offside.Proofs.Stream.Variants
import Offside.Proofs.Stream.Landings
import Offside.Proofs.Outline.Agreement
import Offside.Proofs.Stream.Endings
import Offside.Proofs.Scanner.Slices
import Offside.Proofs.Scanner.Places
import Offside.Proofs.Scanner.Shifts
import Offside.Proofs.Stream.Text
import Offside.Proofs.Outline.Children
import Offside.Proofs.Outline.Starts
import Offside.Proofs.Stream.Policies
import Offside.Proofs.Stream.Shifts
import Offside.Proofs.Stream.Breaks
import Offside.Proofs.Levels.Sequences
import Offside.Proofs.Stream.Numbered
import Offside.Proofs.Stream.Sessions
import Offside.Proofs.CommandLine.Outcome
import Offside.Proofs.Stream.Joins
import Offside.Proofs.Outline.Joins
import Offside.Proofs.Stream.Inference
import Offside.Proofs.Stream.Carrying
import Offside.Proofs.Text.Quoting
import Offside.Proofs.CommandLine.Listing
import Offside.Proofs.Outline.Files
import Offside.Proofs.Outline.Walks
import Offside.Proofs.Stream.Scans
import Offside.Proofs.Stream.Configuring
