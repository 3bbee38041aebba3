import Ridership.Decimal.Layout
import Ridership.Decimal.Numeral
import Ridership.Decimal.Shortest
import Ridership.Forecast.Assembler
import Ridership.Forecast.Cdf
import Ridership.Forecast.Edge
import Ridership.Forecast.Error
import Ridership.Forecast.LineReading
import Ridership.Forecast.Station
import Ridership.Forecast.Trip
import Ridership.Forecast.TripForecast
import Ridership.Json.Decode
import Ridership.Json.Event
import Ridership.Json.Fault
import Ridership.Json.Number
import Ridership.Json.RecordText
import Ridership.Json.Scanner
import Ridership.Json.Selection
import Ridership.Json.Token
import Ridership.Json.Value
import Ridership.Log.Index
import Ridership.Log.Line
import Ridership.Log.SnapshotTime
import Ridership.Log.Splitter
import Ridership.Main
import Ridership.Proofs.Deliveries
import Ridership.Proofs.GrammarTree
import Ridership.Proofs.ScannerParts
import Ridership.Proofs.Segments
import Ridership.Proofs.TokenStable
import Ridership.Proofs.Tree
import Ridership.Ranking
import Ridership.Server.Address
import Ridership.Server.HostSettings
import Ridership.Server.Http
import Ridership.Server.MediaType
import Ridership.Server.Message
import Ridership.Session.Dispatcher
import Ridership.Session.Notification
import Ridership.Settings
import Ridership.Storage.Fault
import Ridership.Storage.FileSource
import Ridership.Storage.Files
import Ridership.Storage.Source
import Ridership.Text.Blank
import Ridership.Text.Printable
import Ridership.Text.Quoted
import Ridership.Text.Utf8
import Ridership.Width
import Ridership.Proofs.TextTree
import Ridership.Proofs.Listening
import Ridership.Proofs.TreeSelection
import Ridership.Proofs.Assembling
import Ridership.Proofs.LineReference
import Ridership.Proofs.RankingForm
import Ridership.Proofs.RankingPass
import Ridership.Proofs.LineSplitting
import Ridership.Proofs.LineIndex
import Ridership.Proofs.CommandRuns
import Ridership.Proofs.SessionHistory
import Ridership.Proofs.LineReports
import Ridership.Proofs.RankedTrips
import Ridership.Proofs.NotificationProtocol
import Ridership.Proofs.LineIndependence
import Ridership.Proofs.CompactText
import Ridership.Proofs.BodyLines
import Ridership.Proofs.Targets
import Ridership.Proofs.HostAnswers
import Ridership.Proofs.Tuning
import Ridership.Proofs.TextEnd
import Ridership.Proofs.Truncation
import Ridership.Proofs.AssemblyHistory
import Ridership.Proofs.MemberValues
import Ridership.Proofs.SubtreePicking
import Ridership.Proofs.GrownFiles
import Ridership.Proofs.Utf8Text
import Ridership.Proofs.StringText
import Ridership.Proofs.Literals
import Ridership.Proofs.NumberText
import Ridership.Proofs.WrittenText
import Ridership.Proofs.UniqueKeys
import Ridership.Proofs.RecordKeys
import Ridership.Proofs.ForecastKeys
import Ridership.Proofs.NumberOrder
import Ridership.Proofs.ExactCounts
import Ridership.Proofs.QuantileOrder
import Ridership.Proofs.TripAggregates
import Ridership.Proofs.SplitterCalls
import Ridership.Proofs.LossyCuts
import Ridership.Proofs.ForeignBytes
import Ridership.Proofs.CutTexts
import Ridership.Proofs.SnapshotPairs
import Ridership.Proofs.LimitsAndLevels
import Ridership.Proofs.RankingState
import Ridership.Proofs.RefusedEvents
import Ridership.Proofs.EventDepths
import Ridership.Proofs.LineTexts
import Ridership.Proofs.FaithfulRecords
import Ridership.Proofs.BlankTexts
import Ridership.Proofs.SplitterProgress
import Ridership.Proofs.BodyReads
import Ridership.Proofs.ProgressReports
import Ridership.Proofs.TokenReach
import Ridership.Proofs.ClosingBytes
import Ridership.Proofs.ErrorPlaces
import Ridership.Proofs.LenientFields
import Ridership.Proofs.ByteAccounts
import Ridership.Proofs.SplitterCounters
