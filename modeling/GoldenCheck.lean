import GoldenCheck.Main
import GoldenCheck.Proofs.Expansion.Lines
import GoldenCheck.Proofs.Expansion.Run
import GoldenCheck.Proofs.Expansion.Flattening
import GoldenCheck.Proofs.Expansion.Provenance
import GoldenCheck.Proofs.Expansion.FileAttribution
import GoldenCheck.Proofs.Expansion.Erasure
import GoldenCheck.Proofs.Expansion.Insertion
import GoldenCheck.Proofs.Expansion.LineAttribution
import GoldenCheck.Proofs.Expansion.Directives
import GoldenCheck.Proofs.Expansion.Course
import GoldenCheck.Proofs.Expansion.Imports
import GoldenCheck.Proofs.Expansion.Ending
import GoldenCheck.Proofs.Expansion.RepeatedImport
import GoldenCheck.Proofs.Expansion.FailedLine
import GoldenCheck.Proofs.Expansion.Rereading
import GoldenCheck.Proofs.Expansion.MarkerLines
import GoldenCheck.Proofs.Expansion.Chronicle
import GoldenCheck.Proofs.Expansion.Locations
import GoldenCheck.Proofs.Expansion.Events
import GoldenCheck.Proofs.Expansion.Comments
import GoldenCheck.Proofs.Expansion.Delivery
import GoldenCheck.Proofs.Expansion.HeaderNames
import GoldenCheck.Proofs.Source.LineNumbers
import GoldenCheck.Proofs.Spelling.Trigraphs
import GoldenCheck.Proofs.Token.Segmentation
import GoldenCheck.Proofs.Token.Extents
import GoldenCheck.Proofs.Token.LineLocality
import GoldenCheck.Proofs.Text.Lines
import GoldenCheck.Proofs.Check.Account
import GoldenCheck.Proofs.Check.Verdict
import GoldenCheck.Proofs.Check.Collecting
import GoldenCheck.Proofs.Check.Counting
import GoldenCheck.Proofs.Check.Grammar
import GoldenCheck.Proofs.Check.Draining
import GoldenCheck.Proofs.Expansion.Confinement
import GoldenCheck.Proofs.Suite.Preparation
import GoldenCheck.Proofs.Suite.Fragments
import GoldenCheck.Proofs.Suite.Independence
import GoldenCheck.Proofs.Suite.Verification
import GoldenCheck.Proofs.Suite.Logging
import GoldenCheck.Proofs.Suite.CommandLine
import GoldenCheck.Proofs.Expansion.Lookup
import GoldenCheck.Proofs.Expansion.Definitions
import GoldenCheck.Proofs.Expansion.Lookahead
import GoldenCheck.Proofs.Token.Faults
