import SceneQuiz.Expr.Document
import SceneQuiz.Machine.Document
import SceneQuiz.Machine.Run
import SceneQuiz.Page
import SceneQuiz.Question.Compiled
import SceneQuiz.Template.BlockDocument
import SceneQuiz.Proofs.Decimal.WholeNumber
import SceneQuiz.Proofs.Machine.Outcome
import SceneQuiz.Proofs.Machine.Scope
import SceneQuiz.Proofs.ResponseTree.Frame
import SceneQuiz.Proofs.ResponseTree.Order
import SceneQuiz.Proofs.ResponseTree.Silent
import SceneQuiz.Proofs.ResponseTree.NodeRun
import SceneQuiz.Proofs.ResponseTree.DirectWalk
import SceneQuiz.Proofs.ResponseTree.Refinement
import SceneQuiz.Proofs.ResponseTree.Visit
import SceneQuiz.Proofs.ResponseTree.Reachability
import SceneQuiz.Proofs.Question.Accepted
import SceneQuiz.Proofs.Question.FunctionNames
import SceneQuiz.Proofs.Parse.Erasure
import SceneQuiz.Proofs.Expr.Spelling
import SceneQuiz.Proofs.Parse.Follow
import SceneQuiz.Proofs.Parse.Spelled
import SceneQuiz.Proofs.Token.Numeral
import SceneQuiz.Proofs.Token.Scanning
import SceneQuiz.Proofs.Parse.Shape
import SceneQuiz.Proofs.Expr.Printed
import SceneQuiz.Proofs.Expr.PrintedText
import SceneQuiz.Proofs.Expr.RoundTrip
import SceneQuiz.Proofs.Expr.FragmentText
import SceneQuiz.Proofs.Machine.Trappable
import SceneQuiz.Proofs.Machine.Following
import SceneQuiz.Proofs.Machine.Congruence
import SceneQuiz.Proofs.Machine.Constructs
import SceneQuiz.Proofs.Template.Concatenation
import SceneQuiz.Proofs.Template.Meaning
import SceneQuiz.Proofs.Parse.FragmentShape
import SceneQuiz.Proofs.Expr.CleanWords
import SceneQuiz.Proofs.Expr.Sealed
import SceneQuiz.Proofs.Template.CleanCode
import SceneQuiz.Proofs.ResponseTree.CleanCode
import SceneQuiz.Proofs.Question.ContentHash
import SceneQuiz.Proofs.Machine.Column
import SceneQuiz.Proofs.Machine.Policy
import SceneQuiz.Proofs.Machine.Obedience
import SceneQuiz.Proofs.Machine.Writes
import SceneQuiz.Proofs.Template.NodeProperty
import SceneQuiz.Proofs.Template.Authored
import SceneQuiz.Proofs.Template.Frame
import SceneQuiz.Proofs.ResponseTree.PlanProperty
import SceneQuiz.Proofs.ResponseTree.KeptBindings
import SceneQuiz.Proofs.Machine.Tracking
import SceneQuiz.Proofs.Page.Completion
import SceneQuiz.Proofs.Template.Placement
import SceneQuiz.Proofs.Template.EmittedForm
import SceneQuiz.Proofs.Template.Shown
import SceneQuiz.Proofs.Template.LoopValue
import SceneQuiz.Proofs.Template.Discreet
import SceneQuiz.Proofs.Template.BlockValue
import SceneQuiz.Proofs.Template.TwoPhases
import SceneQuiz.Proofs.Machine.Nearness
import SceneQuiz.Proofs.Machine.Blindness
import SceneQuiz.Proofs.Machine.Mirroring
import SceneQuiz.Proofs.Template.Contribution
import SceneQuiz.Proofs.Template.Echo
import SceneQuiz.Proofs.Template.SamePage
import SceneQuiz.Proofs.Machine.Respect
import SceneQuiz.Proofs.Machine.Shielding
import SceneQuiz.Proofs.Machine.Reads
import SceneQuiz.Proofs.ResponseTree.AuthoredCode
import SceneQuiz.Proofs.ResponseTree.UnreadInputs
import SceneQuiz.Proofs.Machine.Course
import SceneQuiz.Proofs.Machine.RestrainedRun
import SceneQuiz.Proofs.ResponseTree.FunctionRun
import SceneQuiz.Proofs.ResponseTree.HarmlessTree
import SceneQuiz.Proofs.ResponseTree.KnownScenes
import SceneQuiz.Proofs.ResponseTree.SimpRestored
import SceneQuiz.Proofs.ResponseTree.Progress
import SceneQuiz.Proofs.ResponseTree.StateReport
import SceneQuiz.Proofs.ResponseTree.StateUpdates
import SceneQuiz.Proofs.Expr.Parts
import SceneQuiz.Proofs.Diagnostic.Stored
import SceneQuiz.Proofs.Diagnostic.Verdict
import SceneQuiz.Proofs.ResponseTree.Compilation
import SceneQuiz.Proofs.Question.WellFormed
import SceneQuiz.Proofs.Question.Verdict
import SceneQuiz.Proofs.Question.ReservedNames
import SceneQuiz.Proofs.Question.Places
import SceneQuiz.Proofs.Question.Reordering
import SceneQuiz.Proofs.ResponseTree.ScoredNode
import SceneQuiz.Proofs.ResponseTree.Rounding
import SceneQuiz.Proofs.ResponseTree.ScoredWalk
import SceneQuiz.Proofs.ResponseTree.ErrorAccounting
import SceneQuiz.Proofs.ResponseTree.ScoreAccounting
import SceneQuiz.Proofs.Machine.Fencing
import SceneQuiz.Proofs.Machine.Deeper
import SceneQuiz.Proofs.Machine.Passage
import SceneQuiz.Proofs.Question.SetupRun
import SceneQuiz.Proofs.ResponseTree.FirstTest
import SceneQuiz.Proofs.Template.Settled
import SceneQuiz.Proofs.Template.Expansion
import SceneQuiz.Proofs.Page.Layout
import SceneQuiz.Proofs.Machine.Interposed
import SceneQuiz.Proofs.Template.TidyCode
import SceneQuiz.Proofs.Template.LoopStage
import SceneQuiz.Proofs.Template.Lockstep
import SceneQuiz.Proofs.Template.SkippedBytes
import SceneQuiz.Proofs.Template.SkipCoverage
import SceneQuiz.Proofs.Template.CheckedReading
import SceneQuiz.Proofs.Template.Image
import SceneQuiz.Proofs.Parse.Consumption
import SceneQuiz.Proofs.Parse.FailureReport
import SceneQuiz.Proofs.Parse.Locality
import SceneQuiz.Proofs.Parse.StatementList
import SceneQuiz.Proofs.Token.Spans
import SceneQuiz.Proofs.Token.Lookahead
import SceneQuiz.Proofs.Source.Location
import SceneQuiz.Proofs.Token.Layout
import SceneQuiz.Proofs.Token.Joined
import SceneQuiz.Proofs.Expr.LineBreak
import SceneQuiz.Proofs.Machine.Gas
import SceneQuiz.Proofs.Machine.Balance
import SceneQuiz.Proofs.Value.PrintedForm
import SceneQuiz.Proofs.Value.Members
import SceneQuiz.Proofs.Value.Reading
