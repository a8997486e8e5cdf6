import FrameTiming.Host.Simulation
import FrameTiming.Main
import FrameTiming.Proofs.Number.Rounding
import FrameTiming.Proofs.RecordedTime
import FrameTiming.Proofs.Number.Unpacked
import FrameTiming.Proofs.Number.Operations
import FrameTiming.Proofs.Number.Packed
import FrameTiming.Proofs.Number.Arithmetic
import FrameTiming.Proofs.Number.Order
import FrameTiming.Proofs.EventLog
import FrameTiming.Proofs.StableSort
import FrameTiming.Proofs.Timeline
import FrameTiming.Proofs.Number.Whole
import FrameTiming.Proofs.Percentile
import FrameTiming.Proofs.PercentileTable
import FrameTiming.Proofs.Delimited
import FrameTiming.Proofs.LogText
import FrameTiming.Proofs.Text
import FrameTiming.Proofs.Path
import FrameTiming.Proofs.FileTree
import FrameTiming.Proofs.Machine
import FrameTiming.Proofs.ProvidedLog
import FrameTiming.Proofs.Number.Nonnegative
import FrameTiming.Proofs.RunNumbers
import FrameTiming.Proofs.Ranking
import FrameTiming.Proofs.StableBand
import FrameTiming.Proofs.SummaryOrder
import FrameTiming.Proofs.OutlierTrimming
import FrameTiming.Proofs.WrittenFiles
import FrameTiming.Proofs.GroupFiles
import FrameTiming.Proofs.RendererScript
import FrameTiming.Proofs.AnalyzedLogs
import FrameTiming.Proofs.CombinedLogs
import FrameTiming.Proofs.EventLines
import FrameTiming.Proofs.Epoch
import FrameTiming.Proofs.SavedLog
import FrameTiming.Proofs.EventFields
import FrameTiming.Proofs.WrittenEvents
import FrameTiming.Proofs.Number.Sum
import FrameTiming.Proofs.StateTime
import FrameTiming.Proofs.FrameSeries
import FrameTiming.Proofs.TotalTime
import FrameTiming.Proofs.StateFilter
import FrameTiming.Proofs.Number.Magnitude
import FrameTiming.Proofs.Number.Single
import FrameTiming.Proofs.Number.Root
import FrameTiming.Proofs.Number.SumOrder
import FrameTiming.Proofs.Spread
import FrameTiming.Proofs.RunBounds
import FrameTiming.Proofs.FiniteSummary
import FrameTiming.Proofs.RunComparison
import FrameTiming.Proofs.SecondSlots
import FrameTiming.Proofs.FailedLogs
import FrameTiming.Proofs.EventGrammar
import FrameTiming.Proofs.Window
import FrameTiming.Proofs.Number.Narrowed
import FrameTiming.Proofs.Extremes
import FrameTiming.Proofs.Segments
import FrameTiming.Proofs.LogRecords
import FrameTiming.Proofs.LineEnds
import FrameTiming.Proofs.Representatives
import FrameTiming.Proofs.StateAccount
import FrameTiming.Proofs.Median
import FrameTiming.Proofs.MissedFrames
import FrameTiming.Proofs.Rows
import FrameTiming.Proofs.MalformedRows
import FrameTiming.Proofs.FieldOffsets
import FrameTiming.Proofs.StateKeys
import FrameTiming.Proofs.Configuration
