import Reckoner.Main
import Reckoner.Proofs.Eval.Atomicity
import Reckoner.Proofs.Eval.Meaning
import Reckoner.Proofs.Parse.LiveText
import Reckoner.Proofs.Scan.Ahead
import Reckoner.Proofs.Text.Classes
import Reckoner.Proofs.Scan.Munch
import Reckoner.Proofs.Scan.Tokenization
import Reckoner.Proofs.Scan.Joining
import Reckoner.Proofs.Tree.Relocation
import Reckoner.Proofs.Eval.Joining
import Reckoner.Proofs.Scan.Trimming
import Reckoner.Proofs.Session.Batch
import Reckoner.Proofs.Scan.Positions
import Reckoner.Proofs.Parse.EndOfInput
import Reckoner.Proofs.Eval.Exposure
import Reckoner.Proofs.Eval.ErrorOrder
import Reckoner.Proofs.Parse.Diagnosis
import Reckoner.Proofs.Session.Isolation
import Reckoner.Proofs.Parse.Depth
import Reckoner.Proofs.Tree.Formatting
import Reckoner.Proofs.Eval.Formatting
import Reckoner.Proofs.Eval.Soundness
import Reckoner.Proofs.Parse.Refinement
import Reckoner.Proofs.Parse.Laziness
import Reckoner.Proofs.Session.Growth
import Reckoner.Proofs.Command.Agreement
import Reckoner.Proofs.Command.Dump
import Reckoner.Proofs.Command.WholeNumbers
import Reckoner.Proofs.Parse.NestingLimit
import Reckoner.Proofs.Scan.Numerals
import Reckoner.Proofs.Parse.ExplicitEnd
import Reckoner.Proofs.Command.LineEnds
import Reckoner.Proofs.Command.Listing
import Reckoner.Proofs.Number.Powers
import Reckoner.Proofs.Number.Factorials
import Reckoner.Proofs.Command.ReadBack
import Reckoner.Proofs.Parse.LongestMatch
import Reckoner.Proofs.Scan.Progress
