import Swatch.Main
import Swatch.Proofs.Css.Boundary
import Swatch.Proofs.Grouping
import Swatch.Proofs.Css.Whole
import Swatch.Proofs.Css.Reading
import Swatch.Proofs.Css.Characters
import Swatch.Proofs.Css.Lines
import Swatch.Proofs.Css.Names
import Swatch.Proofs.Css.Parts
import Swatch.Proofs.Css.Cleaned
import Swatch.Proofs.Printing
import Swatch.Proofs.Css.Calm
import Swatch.Proofs.Plain
import Swatch.Proofs.Css.Spelling
import Swatch.Proofs.Css.Ink
import Swatch.Proofs.Css.Weight
import Swatch.Proofs.Css.Lossless
import Swatch.Proofs.Css.Recovered
import Swatch.Proofs.Printable
import Swatch.Proofs.Recase
import Swatch.Proofs.Outline
import Swatch.Proofs.Formatting
import Swatch.Proofs.Css.Values
import Swatch.Proofs.Css.LineCount
import Swatch.Proofs.Css.Standing
import Swatch.Proofs.Css.NormalForm
import Swatch.Proofs.Css.WellFormed
import Swatch.Proofs.Listing
import Swatch.Proofs.Rerun
import Swatch.Proofs.Css.Readers
import Swatch.Proofs.Css.Gaps
import Swatch.Proofs.Hashes
import Swatch.Proofs.Css.Items
import Swatch.Proofs.Css.Concatenation
import Swatch.Proofs.Merging
import Swatch.Proofs.Css.Spaced
import Swatch.Proofs.Css.Blocks
import Swatch.Proofs.Files
import Swatch.Proofs.Running
import Swatch.Proofs.Css.Bodies
import Swatch.Proofs.Css.Components
import Swatch.Proofs.Css.Grammar
import Swatch.Proofs.Css.Selectors
import Swatch.Proofs.Rescan
import Swatch.Proofs.Monotone
import Swatch.Proofs.Css.Kinds
import Swatch.Proofs.Recolor
import Swatch.Proofs.InStep
import Swatch.Proofs.Css.Phrases
import Swatch.Proofs.Css.Reread
import Swatch.Proofs.Css.RereadAddresses
import Swatch.Proofs.Css.RereadReaders
import Swatch.Proofs.Css.RereadTokens
import Swatch.Proofs.Css.Meaning
import Swatch.Proofs.CaseBlind
import Swatch.Proofs.Css.Atoms
import Swatch.Proofs.Css.Division
import Swatch.Proofs.Arguments
import Swatch.Proofs.FrontEnd
import Swatch.Proofs.Bytes
import Swatch.Proofs.ByteScan
import Swatch.Proofs.ByteRanges
