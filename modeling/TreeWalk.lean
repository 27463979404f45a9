import TreeWalk.Main
import TreeWalk.Proofs.DepthLimit
import TreeWalk.Proofs.ErrorFreedom
import TreeWalk.Proofs.ErrorPlaces
import TreeWalk.Proofs.FatalErrors
import TreeWalk.Proofs.Repeatability
import TreeWalk.Proofs.Reset
import TreeWalk.Proofs.ReturnAgreement
import TreeWalk.Proofs.SingleStatements
import TreeWalk.Proofs.UnmentionedNames
import TreeWalk.Proofs.LastingNames
import TreeWalk.Proofs.RenderedData
import TreeWalk.Proofs.UnreadInput
import TreeWalk.Proofs.MaximalMunch
import TreeWalk.Proofs.FrontEnds
import TreeWalk.Proofs.SignalLayers
import TreeWalk.Proofs.Layout
import TreeWalk.Proofs.Brackets
import TreeWalk.Proofs.LoopPasses
import TreeWalk.Proofs.Equality
import TreeWalk.Proofs.CanonicalText
import TreeWalk.Proofs.IntegerParsing
import TreeWalk.Proofs.StableSplit
import TreeWalk.Proofs.FunctionFreedom
import TreeWalk.Proofs.LexicalLookup
import TreeWalk.Proofs.LegibleOutlines
import TreeWalk.Proofs.ExactArithmetic
import TreeWalk.Proofs.FreshIdentities
import TreeWalk.Proofs.FunctionIdentity
import TreeWalk.Proofs.Comparison
import TreeWalk.Proofs.ErrorValues
