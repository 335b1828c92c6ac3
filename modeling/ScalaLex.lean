import ScalaLex.Log.FileContext
import ScalaLex.Main
import ScalaLex.Proofs.LineCount
import ScalaLex.Proofs.TokenLines
import ScalaLex.Proofs.Appending
import ScalaLex.Proofs.LineSplits
import ScalaLex.Proofs.LongerSources
import ScalaLex.Proofs.Bodies
import ScalaLex.Proofs.ClosingQuotes
import ScalaLex.Proofs.OpenConstructs
import ScalaLex.Proofs.EntryPaths
import ScalaLex.Proofs.FoundFiles
import ScalaLex.Proofs.Encounters
import ScalaLex.Proofs.ReadFiles
import ScalaLex.Proofs.Turns
import ScalaLex.Proofs.Batches
import ScalaLex.Proofs.ExitStatus
import ScalaLex.Proofs.ShownFiles
import ScalaLex.Proofs.NormalForm
import ScalaLex.Proofs.EncodedText
import ScalaLex.Proofs.SourceParts
import ScalaLex.Proofs.LongOperators
import ScalaLex.Proofs.LastLine
import ScalaLex.Proofs.TrackedLine
import ScalaLex.Proofs.Listing
import ScalaLex.Proofs.Figures
import ScalaLex.Proofs.Rescanning
import ScalaLex.Proofs.StoppedBatches
import ScalaLex.Proofs.AbsolutePaths
import ScalaLex.Proofs.ScalaNames
import ScalaLex.Proofs.FileOutcomes
import ScalaLex.Proofs.LinkedFiles
import ScalaLex.Proofs.PreferenceFiles
import ScalaLex.Proofs.ExtensionLists
import ScalaLex.Proofs.JoinedArguments
import ScalaLex.Proofs.TokenForms
import ScalaLex.Proofs.EventLines
import ScalaLex.Proofs.EventRecords
import ScalaLex.Proofs.ReadReports
import ScalaLex.Proofs.ShownSizes
import ScalaLex.Proofs.FileContexts
import ScalaLex.Proofs.PendingLexemes
import ScalaLex.Proofs.KeptPairs
import ScalaLex.Proofs.RecentEvents
