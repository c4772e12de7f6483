import ToolDialogue.Inspection
import ToolDialogue.Proofs.Scanning
import ToolDialogue.Stored.Dialogue
import ToolDialogue.Stored.Signature
import ToolDialogue.Strategy.FillIn
import ToolDialogue.Strategy.TurnByTurn
import ToolDialogue.Tool.Stock
import ToolDialogue.Proofs.IntegerText
import ToolDialogue.Proofs.Reading
import ToolDialogue.Proofs.Conforming
import ToolDialogue.Proofs.ValueText
import ToolDialogue.Proofs.Binding
import ToolDialogue.Proofs.Tree
import ToolDialogue.Proofs.DirectEvaluation
import ToolDialogue.Proofs.Simulation
import ToolDialogue.Proofs.Trace
import ToolDialogue.Proofs.CallTree
import ToolDialogue.Proofs.Order
import ToolDialogue.Proofs.CallOnce
import ToolDialogue.Proofs.Executions
import ToolDialogue.Proofs.Attempt
import ToolDialogue.Proofs.Nearest
import ToolDialogue.Proofs.DecimalText
import ToolDialogue.Proofs.JsonText
import ToolDialogue.Proofs.CallKey
import ToolDialogue.Proofs.Course
import ToolDialogue.Proofs.ResponseTurns
import ToolDialogue.Proofs.ThreadResults
import ToolDialogue.Proofs.FirstAnswer
import ToolDialogue.Proofs.Restatement
import ToolDialogue.Proofs.Policies
import ToolDialogue.Proofs.RunRecord
import ToolDialogue.Proofs.Notices
import ToolDialogue.Proofs.CarriedResults
import ToolDialogue.Proofs.Histories
import ToolDialogue.Proofs.Lifting
import ToolDialogue.Proofs.TimeLimit
import ToolDialogue.Proofs.QuotedText
import ToolDialogue.Proofs.Items
import ToolDialogue.Proofs.Filling
import ToolDialogue.Proofs.Templates
import ToolDialogue.Proofs.FilledAnswer
import ToolDialogue.Proofs.ReturnedTexts
import ToolDialogue.Proofs.ListSpellings
import ToolDialogue.Proofs.ResultText
import ToolDialogue.Proofs.NamedTools
import ToolDialogue.Proofs.LongestPrefix
import ToolDialogue.Proofs.NestingLevels
import ToolDialogue.Proofs.Segmentation
import ToolDialogue.Proofs.CallDisplay
import ToolDialogue.Proofs.GroupLimit
import ToolDialogue.Proofs.BareLists
import ToolDialogue.Proofs.QuotedShape
import ToolDialogue.Proofs.SingleQuotes
import ToolDialogue.Proofs.Numerals
import ToolDialogue.Proofs.IntegerSpellings
import ToolDialogue.Proofs.LastFailure
import ToolDialogue.Proofs.ByteOrder
import ToolDialogue.Proofs.Registration
import ToolDialogue.Proofs.StoredForms
import ToolDialogue.Proofs.InsertionOrder
import ToolDialogue.Proofs.ElementPaths
