import Colourway.NameTable
import Colourway.Number.Count
import Colourway.Text.Blank
import Colourway.Text.LetterCase
import Colourway.Text.Lines
import Colourway.Text.Quoted
import Colourway.Colour.Adjustment
import Colourway.Colour.HexCode
import Colourway.Colour.Stop
import Colourway.Recipe.Multiplier
import Colourway.Gradient.Basic
import Colourway.Recipe.Fault
import Colourway.Recipe.Word
import Colourway.Swatches
import Colourway.Gradient.Ramp
import Colourway.Journal
import Colourway.Recipe.Reading
import Colourway.Catalogue.Basic
import Colourway.Sheet.Basic
import Colourway.Number.Decimal
import Colourway.Number.Layout
import Colourway.Json.Decode
import Colourway.Json.Encode
import Colourway.Main
import Colourway.Proofs.Colour.Adjustment
import Colourway.Proofs.Colour.Stop
import Colourway.Proofs.Recipe.Draft
import Colourway.Proofs.Recipe.Meaning
import Colourway.Proofs.Colour.HexCode
import Colourway.Proofs.Recipe.Outcome
import Colourway.Proofs.Recipe.Vocabulary
import Colourway.Proofs.Recipe.Joining
import Colourway.Proofs.Recipe.Repetition
import Colourway.Proofs.Double.Drift
import Colourway.Proofs.Number.Exact
import Colourway.Proofs.Colour.Mix
import Colourway.Proofs.Recipe.Likeness
import Colourway.Proofs.Recipe.Mixture
import Colourway.Proofs.Recipe.Stacking
import Colourway.Proofs.Recipe.Writing
import Colourway.Proofs.Gradient.Ends
import Colourway.Proofs.Sheet.Setting
import Colourway.Proofs.Sheet.Lookup
import Colourway.Proofs.Sheet.Sharing
import Colourway.Proofs.Catalogue.OfSheet
import Colourway.Proofs.Recipe.OwnName
import Colourway.Proofs.Recipe.Tiling
import Colourway.Proofs.Gradient.Landing
import Colourway.Proofs.Double.OneMore
import Colourway.Proofs.Gradient.Flat
import Colourway.Proofs.Text.Quoted
import Colourway.Proofs.Recipe.Policies
import Colourway.Proofs.Recipe.Origin
import Colourway.Proofs.Swatches.Lookup
import Colourway.Proofs.Recipe.Unrelated
import Colourway.Proofs.Recipe.Inserting
import Colourway.Proofs.Gradient.Outside
import Colourway.Proofs.Text.Spelling
import Colourway.Proofs.Catalogue.Outcome
import Colourway.Proofs.Catalogue.LetterCase
import Colourway.Proofs.Sheet.Appending
import Colourway.Proofs.Colour.Grammar
import Colourway.Proofs.Catalogue.Names
import Colourway.Proofs.Sheet.Inserting
import Colourway.Proofs.Command.SamplePoints
import Colourway.Proofs.Double.Distance
