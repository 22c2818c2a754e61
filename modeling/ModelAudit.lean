import ModelAudit.CommandLine.Arguments
import ModelAudit.CommandLine.Console
import ModelAudit.CommandLine.Option
import ModelAudit.CommandLine.Path
import ModelAudit.CommandLine.Run
import ModelAudit.CommandLine.World
import ModelAudit.Config
import ModelAudit.Evaluation.Check
import ModelAudit.Evaluation.Evaluate
import ModelAudit.Evaluation.Operation
import ModelAudit.Evaluation.Scalar
import ModelAudit.Evaluation.SortSize
import ModelAudit.Evaluation.Truth
import ModelAudit.Evaluation.Value
import ModelAudit.Expansion.Construction
import ModelAudit.Expansion.Expression
import ModelAudit.Expansion.Unfolding
import ModelAudit.Hol.Helper
import ModelAudit.Hol.Identifier
import ModelAudit.Hol.Scope
import ModelAudit.Hol.Spelling
import ModelAudit.Hol.Term
import ModelAudit.Hol.Translation
import ModelAudit.Json.Basic
import ModelAudit.Json.Lexer
import ModelAudit.Json.Reader
import ModelAudit.Main
import ModelAudit.Number.Binary64
import ModelAudit.Number.Fixed
import ModelAudit.Number.Power
import ModelAudit.Number.Quantity
import ModelAudit.Number.Reading
import ModelAudit.Number.Shortest
import ModelAudit.Operator
import ModelAudit.Proofs.Abbreviations
import ModelAudit.Proofs.AddedDefinitions
import ModelAudit.Proofs.AliasHygiene
import ModelAudit.Proofs.AnsweringSession
import ModelAudit.Proofs.Assembly
import ModelAudit.Proofs.AssumedApart
import ModelAudit.Proofs.BalancedReading
import ModelAudit.Proofs.Blame
import ModelAudit.Proofs.BlamedCommands
import ModelAudit.Proofs.Brackets
import ModelAudit.Proofs.CaptureFree
import ModelAudit.Proofs.CarriedHelpers
import ModelAudit.Proofs.CircularEquations
import ModelAudit.Proofs.ClosedLemma
import ModelAudit.Proofs.CommandEffects
import ModelAudit.Proofs.CommonSemantics
import ModelAudit.Proofs.ConstructedOperators
import ModelAudit.Proofs.ContainedInput
import ModelAudit.Proofs.DeclarationOrder
import ModelAudit.Proofs.DecodedPrefixes
import ModelAudit.Proofs.DefinitionTable
import ModelAudit.Proofs.DefinitionalExtension
import ModelAudit.Proofs.DelimitedTerms
import ModelAudit.Proofs.Denotation
import ModelAudit.Proofs.Dependency
import ModelAudit.Proofs.DigitValues
import ModelAudit.Proofs.EchoedDefinitions
import ModelAudit.Proofs.ExitStatus
import ModelAudit.Proofs.ExpansionStack
import ModelAudit.Proofs.FormulaDefinitions
import ModelAudit.Proofs.FormulaLayout
import ModelAudit.Proofs.FreshName
import ModelAudit.Proofs.FunctionArrays
import ModelAudit.Proofs.GroundSorts
import ModelAudit.Proofs.GroundTerms
import ModelAudit.Proofs.HelperClosure
import ModelAudit.Proofs.HelperTerms
import ModelAudit.Proofs.HelperWords
import ModelAudit.Proofs.HolParts
import ModelAudit.Proofs.HolVariables
import ModelAudit.Proofs.Identifier
import ModelAudit.Proofs.IndexedApplications
import ModelAudit.Proofs.InertTranslation
import ModelAudit.Proofs.InnerSyntax
import ModelAudit.Proofs.JoinedFormulas
import ModelAudit.Proofs.JoinedTexts
import ModelAudit.Proofs.KnownEntries
import ModelAudit.Proofs.LargerTables
import ModelAudit.Proofs.LeastFreshName
import ModelAudit.Proofs.LeastReached
import ModelAudit.Proofs.Legible
import ModelAudit.Proofs.LegibleTranslation
import ModelAudit.Proofs.LexedAtoms
import ModelAudit.Proofs.LexemePatterns
import ModelAudit.Proofs.LinePatterns
import ModelAudit.Proofs.LinewiseVerdict
import ModelAudit.Proofs.Meaning
import ModelAudit.Proofs.MeaningPreserved
import ModelAudit.Proofs.ModelEntries
import ModelAudit.Proofs.ModelPlaces
import ModelAudit.Proofs.Occurrence
import ModelAudit.Proofs.OperatorMeaning
import ModelAudit.Proofs.Outcome
import ModelAudit.Proofs.Outlines
import ModelAudit.Proofs.OverrideShape
import ModelAudit.Proofs.OverridingEntries
import ModelAudit.Proofs.PermutedDefinitions
import ModelAudit.Proofs.Phrases
import ModelAudit.Proofs.PlacedCommands
import ModelAudit.Proofs.PlacedTerms
import ModelAudit.Proofs.Positions
import ModelAudit.Proofs.QuotedText
import ModelAudit.Proofs.RefusedPairs
import ModelAudit.Proofs.Rejection
import ModelAudit.Proofs.RemovedWrappers
import ModelAudit.Proofs.RenderedExpressions
import ModelAudit.Proofs.RepeatedDefinitions
import ModelAudit.Proofs.RereadDefinitions
import ModelAudit.Proofs.RunFindings
import ModelAudit.Proofs.RunSteps
import ModelAudit.Proofs.SafeIdentifier
import ModelAudit.Proofs.ScopeAgreement
import ModelAudit.Proofs.ScopedTranslation
import ModelAudit.Proofs.SettledPair
import ModelAudit.Proofs.ShadowedDefinitions
import ModelAudit.Proofs.ShadowedElements
import ModelAudit.Proofs.SignatureDemands
import ModelAudit.Proofs.SignatureTexts
import ModelAudit.Proofs.SolverAnswers
import ModelAudit.Proofs.SolverFrames
import ModelAudit.Proofs.SolverLayout
import ModelAudit.Proofs.SortCommands
import ModelAudit.Proofs.SortMeaning
import ModelAudit.Proofs.SortPatterns
import ModelAudit.Proofs.SpareIdentifiers
import ModelAudit.Proofs.SpelledOperators
import ModelAudit.Proofs.SpellingMeaning
import ModelAudit.Proofs.StableLexemes
import ModelAudit.Proofs.StableSignatures
import ModelAudit.Proofs.StringLiterals
import ModelAudit.Proofs.StumblingTerms
import ModelAudit.Proofs.Subterms
import ModelAudit.Proofs.SymbolGrowth
import ModelAudit.Proofs.Tables
import ModelAudit.Proofs.TermInduction
import ModelAudit.Proofs.TermSources
import ModelAudit.Proofs.TermTexts
import ModelAudit.Proofs.TextMeaning
import ModelAudit.Proofs.TheoryText
import ModelAudit.Proofs.TokenPartition
import ModelAudit.Proofs.TokenPlaces
import ModelAudit.Proofs.TotalSpelling
import ModelAudit.Proofs.TranslatedTerms
import ModelAudit.Proofs.TranslationMeaning
import ModelAudit.Proofs.TypeTranslation
import ModelAudit.Proofs.TypedPair
import ModelAudit.Proofs.Typing
import ModelAudit.Proofs.UnfoldingCycles
import ModelAudit.Proofs.UnfoldingMeaning
import ModelAudit.Proofs.UniverseAssumption
import ModelAudit.Proofs.UniverseGroups
import ModelAudit.Proofs.UnknownSorts
import ModelAudit.Proofs.UnreachedDefinitions
import ModelAudit.Proofs.WellSorted
import ModelAudit.Proofs.WrittenTerms
import ModelAudit.Prover.Classification
import ModelAudit.Prover.Executable
import ModelAudit.Prover.Run
import ModelAudit.SExpr.Basic
import ModelAudit.SExpr.Escape
import ModelAudit.SExpr.Lexer
import ModelAudit.SExpr.Reader
import ModelAudit.Script.Command
import ModelAudit.Script.Fault
import ModelAudit.Script.Session
import ModelAudit.Script.SolverOutput
import ModelAudit.Script.SortReading
import ModelAudit.Script.Symbols
import ModelAudit.Script.Term
import ModelAudit.Script.TermEquality
import ModelAudit.Script.TermReading
import ModelAudit.Signature
import ModelAudit.SmtSort
import ModelAudit.Solver
import ModelAudit.Table
import ModelAudit.Text.Basic
import ModelAudit.Text.Blank
import ModelAudit.Text.Digit
import ModelAudit.Text.Lines
import ModelAudit.Text.Pattern
import ModelAudit.Text.Printable
import ModelAudit.Text.Quoted
import ModelAudit.Text.Search
import ModelAudit.Text.Utf8
import ModelAudit.Text.Word
import ModelAudit.Theory.Lemma
import ModelAudit.Theory.Obligation
import ModelAudit.Theory.Reachability
import ModelAudit.Theory.Root
import ModelAudit.Universe
import ModelAudit.Validation
import ModelAudit.Verdict
