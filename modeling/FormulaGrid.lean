import FormulaGrid.Builder.Outline
import FormulaGrid.Sheet.Edit
import FormulaGrid.Sheet.Inspect
import FormulaGrid.Sheet.Usage
import FormulaGrid.Proofs.BigStep
import FormulaGrid.Proofs.CycleGuard
import FormulaGrid.Proofs.Reach
import FormulaGrid.Proofs.Dependents
import FormulaGrid.Proofs.Edits
import FormulaGrid.Proofs.Locality
import FormulaGrid.Proofs.Lexing
import FormulaGrid.Proofs.ParsedShape
import FormulaGrid.Proofs.Reread
import FormulaGrid.Proofs.Display
import FormulaGrid.Proofs.Usage
import FormulaGrid.Proofs.Comparison
import FormulaGrid.Proofs.Faithful
import FormulaGrid.Proofs.Balance
import FormulaGrid.Proofs.Layout
import FormulaGrid.Proofs.FirstOperator
import FormulaGrid.Proofs.Circles
import FormulaGrid.Proofs.SelfUse
import FormulaGrid.Proofs.Rebuild
import FormulaGrid.Proofs.Contents
import FormulaGrid.Proofs.Lookup
import FormulaGrid.Proofs.Clean
import FormulaGrid.Proofs.NormalForm
import FormulaGrid.Proofs.Extension
import FormulaGrid.Proofs.Inlining
import FormulaGrid.Proofs.Averages
import FormulaGrid.Proofs.Spelling
import FormulaGrid.Proofs.Enclosure
import FormulaGrid.Proofs.Components
import FormulaGrid.Proofs.Occurrence
import FormulaGrid.Proofs.Shape
import FormulaGrid.Proofs.Splicing
import FormulaGrid.Proofs.Replacement
import FormulaGrid.Proofs.EmptySpans
import FormulaGrid.Proofs.Culprit
import FormulaGrid.Proofs.Nesting
import FormulaGrid.Proofs.Spacing
import FormulaGrid.Proofs.Origin
import FormulaGrid.Proofs.Overflow
import FormulaGrid.Proofs.Quotients
import FormulaGrid.Proofs.Ranks
import FormulaGrid.Proofs.EditedUse
import FormulaGrid.Proofs.Listing
import FormulaGrid.Proofs.Numbering
import FormulaGrid.Proofs.Depth
import FormulaGrid.Proofs.Casing
