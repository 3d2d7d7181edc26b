import Stencil.Main
import Stencil.Proofs.Acceptance
import Stencil.Proofs.AddedNames
import Stencil.Proofs.Agreement
import Stencil.Proofs.Asking
import Stencil.Proofs.Assignments
import Stencil.Proofs.Brackets
import Stencil.Proofs.Calls
import Stencil.Proofs.Chaining
import Stencil.Proofs.ClosedChains
import Stencil.Proofs.ComparisonLiterals
import Stencil.Proofs.Comparisons
import Stencil.Proofs.ComponentLookup
import Stencil.Proofs.Configurations
import Stencil.Proofs.Crashes
import Stencil.Proofs.CurrentFile
import Stencil.Proofs.Decimals
import Stencil.Proofs.DecodedLiterals
import Stencil.Proofs.DistinctKeys
import Stencil.Proofs.Expansion
import Stencil.Proofs.Forms
import Stencil.Proofs.Frames
import Stencil.Proofs.Handlers
import Stencil.Proofs.HiddenComments
import Stencil.Proofs.Iterations
import Stencil.Proofs.JsonObjects
import Stencil.Proofs.Lexemes
import Stencil.Proofs.Linearisation
import Stencil.Proofs.MetaDefaults
import Stencil.Proofs.MovedLines
import Stencil.Proofs.NameOrder
import Stencil.Proofs.NearestDoubles
import Stencil.Proofs.NestedVariables
import Stencil.Proofs.NumberForms
import Stencil.Proofs.Origins
import Stencil.Proofs.Outcome
import Stencil.Proofs.PartialEvaluation
import Stencil.Proofs.Patterns
import Stencil.Proofs.PlaceNames
import Stencil.Proofs.PlainResiduals
import Stencil.Proofs.PlainText
import Stencil.Proofs.Preorder
import Stencil.Proofs.Presentation
import Stencil.Proofs.PrintedMappings
import Stencil.Proofs.PushedFrames
import Stencil.Proofs.Reindentation
import Stencil.Proofs.RenderCommand
import Stencil.Proofs.Reporting
import Stencil.Proofs.Runtime
import Stencil.Proofs.RuntimeIndependence
import Stencil.Proofs.ScopeDiscipline
import Stencil.Proofs.Segmentation
import Stencil.Proofs.Shapes
import Stencil.Proofs.TagGrammar
import Stencil.Proofs.UnreadNames
import Stencil.Proofs.VariableEnds
import Stencil.Proofs.Visits
import Stencil.Proofs.Vocabularies
import Stencil.Proofs.Walk
import Stencil.Proofs.WellMade
import Stencil.Proofs.WrittenCalls
import Stencil.Proofs.WrittenConditions
import Stencil.Records
