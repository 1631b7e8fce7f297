import ShaderTint.Main
import ShaderTint.Pass.Session
import ShaderTint.Tree.Builder
import ShaderTint.Wire.Encoding
import ShaderTint.Wire.OfValue
import ShaderTint.Proofs.Pass.Effects
import ShaderTint.Proofs.Pass.RuleTable
import ShaderTint.Proofs.Pass.Recursion
import ShaderTint.Proofs.Pass.Account
import ShaderTint.Proofs.Tree.Bracketing
import ShaderTint.Proofs.Json.Lexeme
import ShaderTint.Proofs.Wire.RoundTrip
import ShaderTint.Proofs.Pass.Budget
import ShaderTint.Proofs.Highlight.FirstSeen
import ShaderTint.Proofs.CommandLine.Modes
import ShaderTint.Proofs.CommandLine.Placement
import ShaderTint.Proofs.Pass.Lineage
import ShaderTint.Proofs.Pass.Precedence
import ShaderTint.Proofs.Pass.Recording
import ShaderTint.Proofs.Pass.Reach
import ShaderTint.Proofs.Json.Keys
import ShaderTint.Proofs.Pass.Crossing
import ShaderTint.Proofs.Wire.Grammar
import ShaderTint.Proofs.Wire.Rendering
import ShaderTint.Proofs.Wire.Skipping
import ShaderTint.Proofs.Wire.PartAgreement
import ShaderTint.Proofs.Wire.Agreement
import ShaderTint.Proofs.Wire.Normalisation
import ShaderTint.Proofs.Pass.Locality
import ShaderTint.Proofs.Tree.Relabelling
import ShaderTint.Proofs.Highlight.Relabelling
import ShaderTint.Proofs.Pass.Relabelling
import ShaderTint.Proofs.Pass.Transcript
import ShaderTint.Proofs.Pass.Sharing
import ShaderTint.Proofs.Pass.Wires
import ShaderTint.Proofs.Pass.Handles
import ShaderTint.Proofs.CommandLine.Success
import ShaderTint.Proofs.Source.Lines
import ShaderTint.Proofs.Source.LineTexts
import ShaderTint.Proofs.Source.Positions
import ShaderTint.Proofs.Source.Clipping
import ShaderTint.Proofs.Highlight.Views
import ShaderTint.Proofs.Tree.FirstFault
import ShaderTint.Proofs.Tree.Escapes
import ShaderTint.Proofs.Pass.Misnaming
import ShaderTint.Proofs.Pass.Overlap
import ShaderTint.Proofs.Pass.Correction
import ShaderTint.Proofs.Pass.NestedBudgets
import ShaderTint.Proofs.Report.Rows
import ShaderTint.Proofs.Report.Decoding
import ShaderTint.Proofs.Json.Pretty
import ShaderTint.Proofs.Report.Lossless
import ShaderTint.Proofs.Report.Words
import ShaderTint.Proofs.Tree.Calls
import ShaderTint.Proofs.Pass.Rounds
