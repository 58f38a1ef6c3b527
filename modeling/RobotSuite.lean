import RobotSuite.Text.Units
import RobotSuite.Text.Blank
import RobotSuite.Text.Case
import RobotSuite.Text.Letter
import RobotSuite.Text.Variables
import RobotSuite.Number.Shortest
import RobotSuite.Number.Literal
import RobotSuite.Document.Reader
import RobotSuite.Document.Printer
import RobotSuite.Pattern.Reader
import RobotSuite.Token.Lines
import RobotSuite.Tree.Parse
import RobotSuite.Tree.Edit
import RobotSuite.Walk
import RobotSuite.SuiteConfig
import RobotSuite.Lint.Check
import RobotSuite.Lint.Fixing
import RobotSuite.Format.Run
import RobotSuite.Diff
import RobotSuite.Batch.Run
import RobotSuite.Command.Run
import RobotSuite.Main
import RobotSuite.Text.TabStop
import RobotSuite.Proofs.Tree.Lossless
import RobotSuite.Proofs.Format.Run
import RobotSuite.Proofs.Token.Grammar
import RobotSuite.Proofs.Tree.ValidSources
import RobotSuite.Proofs.Format.DisabledRegions
import RobotSuite.Proofs.Walk.Hooks
import RobotSuite.Proofs.Directive.Scopes
import RobotSuite.Proofs.Lint.TextChanges
import RobotSuite.Proofs.Lint.Slots
import RobotSuite.Proofs.Lint.Occurrences
import RobotSuite.Proofs.Lint.SlotEdits
import RobotSuite.Proofs.Lint.FixingRules
import RobotSuite.Proofs.Lint.CheckedFixes
import RobotSuite.Proofs.Lint.FixPlans
import RobotSuite.Proofs.Lint.FixedLines
import RobotSuite.Proofs.Lint.FixedReading
import RobotSuite.Proofs.Lint.FixedGroups
import RobotSuite.Proofs.Lint.FixRound
import RobotSuite.Proofs.Tree.DefectTraces
import RobotSuite.Proofs.Format.KeptComments
import RobotSuite.Proofs.Format.RespacedSources
import RobotSuite.Proofs.Data.WholeNumbers
import RobotSuite.Proofs.Format.Gaps.EvenLines
import RobotSuite.Proofs.Transform.Levels
import RobotSuite.Proofs.Lint.LayoutAgreement
import RobotSuite.Proofs.Tree.JoinedSources
import RobotSuite.Proofs.Format.LineEndings
import RobotSuite.Proofs.Batch.Schedules
import RobotSuite.Proofs.Token.Places
import RobotSuite.Proofs.Transform.WholeSections
import RobotSuite.Proofs.Statement.Clear
import RobotSuite.Proofs.Data.StableSorts
import RobotSuite.Proofs.Format.MergeSections
import RobotSuite.Proofs.Tree.SectionReading
import RobotSuite.Proofs.Format.OrderSettings.Order
import RobotSuite.Proofs.Format.OrderSettings.Pass
import RobotSuite.Proofs.Format.EmptyLines.LineGaps
import RobotSuite.Proofs.Format.EmptyLines.Bodies
import RobotSuite.Proofs.Format.EmptyLines.Blocks
import RobotSuite.Proofs.Format.EmptyLines.Files
import RobotSuite.Proofs.Lint.SimultaneousChanges
import RobotSuite.Proofs.Format.StatementPasses
import RobotSuite.Proofs.Format.Split.Widths
import RobotSuite.Proofs.Format.Columns.Pass
import RobotSuite.Proofs.Format.UniqueTags.Pass
import RobotSuite.Proofs.Format.UniqueTags.Repetitions
import RobotSuite.Proofs.Data.ShortestDiff
import RobotSuite.Proofs.Lint.RuleReports
import RobotSuite.Proofs.Lint.TagPlaces
import RobotSuite.Proofs.Lint.ReportedPlaces
import RobotSuite.Proofs.Command.Arguments
import RobotSuite.Proofs.Config.Loading
import RobotSuite.Proofs.Tree.Spans
import RobotSuite.Proofs.Tree.CommentOwners
import RobotSuite.Proofs.Tree.SectionEnds
import RobotSuite.Proofs.Walk.Matching
import RobotSuite.Proofs.Format.Layout.SplitAndAlign
import RobotSuite.Proofs.Format.Idempotence
