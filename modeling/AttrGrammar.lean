import AttrGrammar.Main
import AttrGrammar.Proofs.Ensures
import AttrGrammar.Proofs.Reading
import AttrGrammar.Proofs.Recognition
import AttrGrammar.Proofs.Entries
import AttrGrammar.Proofs.NameMap
import AttrGrammar.Proofs.Linking
import AttrGrammar.Proofs.Layout
import AttrGrammar.Proofs.Congruence
import AttrGrammar.Proofs.CallCongruence
import AttrGrammar.Proofs.Cutoff
import AttrGrammar.Proofs.Termination
import AttrGrammar.Proofs.DepthLimit
import AttrGrammar.Proofs.TraceSink
import AttrGrammar.Proofs.Tracing
import AttrGrammar.Proofs.Unwatched
import AttrGrammar.Proofs.SharedRuns
import AttrGrammar.Proofs.Slots
import AttrGrammar.Proofs.StackDiscipline
import AttrGrammar.Proofs.Supply
import AttrGrammar.Proofs.Provision
import AttrGrammar.Proofs.Moves
import AttrGrammar.Proofs.WholeProvision
import AttrGrammar.Proofs.CppSlots
import AttrGrammar.Proofs.WholeParse
import AttrGrammar.Proofs.Reader
import AttrGrammar.Proofs.Denotation
import AttrGrammar.Proofs.WholeReading
import AttrGrammar.Proofs.XmlReading
import AttrGrammar.Proofs.XmlSlots
import AttrGrammar.Proofs.FrontEnds
import AttrGrammar.Proofs.ReaderLogic
import AttrGrammar.Proofs.ReadingSteps
import AttrGrammar.Proofs.XmlRules
import AttrGrammar.Proofs.XmlEvents
import AttrGrammar.Proofs.XmlTree
import AttrGrammar.Proofs.XmlWords
import AttrGrammar.Proofs.XmlRoundTrip
import AttrGrammar.Proofs.CppReading
import AttrGrammar.Proofs.CppRules
import AttrGrammar.Proofs.CppLexemes
import AttrGrammar.Proofs.CppSpacing
import AttrGrammar.Proofs.CppTokens
import AttrGrammar.Proofs.Nesting
import AttrGrammar.Proofs.Sufficiency
import AttrGrammar.Proofs.CppLayout
import AttrGrammar.Proofs.CppWriting
import AttrGrammar.Proofs.CppRoundTrip
import AttrGrammar.Proofs.CppLexemeLogic
import AttrGrammar.Proofs.CppTrees
import AttrGrammar.Proofs.CppAcceptance
import AttrGrammar.Proofs.CppChains
import AttrGrammar.Proofs.CppStatements
import AttrGrammar.Proofs.Passage
import AttrGrammar.Proofs.TraceLines
import AttrGrammar.Proofs.CallPassage
import AttrGrammar.Proofs.OpenActivations
import AttrGrammar.Proofs.TraceForest
import AttrGrammar.Proofs.Journal
import AttrGrammar.Proofs.FrameStores
import AttrGrammar.Proofs.Moments
import AttrGrammar.Proofs.Places
import AttrGrammar.Proofs.Columns
import AttrGrammar.Proofs.Suppression
import AttrGrammar.Proofs.Demands
import AttrGrammar.Proofs.LinkFaults
import AttrGrammar.Proofs.Bracketing
import AttrGrammar.Proofs.Regrouping
import AttrGrammar.Proofs.Unrolling
import AttrGrammar.Proofs.CppComments
import AttrGrammar.Proofs.Insistence
import AttrGrammar.Proofs.CppSkipping
import AttrGrammar.Proofs.Excerpts
import AttrGrammar.Proofs.CppWords
import AttrGrammar.Proofs.SetExpressions
import AttrGrammar.Proofs.Numerals
import AttrGrammar.Proofs.Words
import AttrGrammar.Proofs.Escapes
import AttrGrammar.Proofs.NotationLines
import AttrGrammar.Proofs.NotationTrees
import AttrGrammar.Proofs.Notation
import AttrGrammar.Proofs.Raising
import AttrGrammar.Proofs.XmlSyntax
import AttrGrammar.Proofs.XmlReporting
import AttrGrammar.Proofs.XmlReferences
import AttrGrammar.Proofs.XmlDocuments
import AttrGrammar.Proofs.UpToMark
import AttrGrammar.Proofs.FrameMaps
