import Kanat.PersistenceClips
import Kanat.DetectionReopening
import Kanat.DetectionEnding
import Kanat.DetectionServiceReplies
import Kanat.RangeService
import Kanat.RangeServiceStops
import Kanat.RangeServiceStarts
import Kanat.DbWriter
import Kanat.DbWriterAccounting
import Kanat.HandlerService
import Kanat.HandlerThreads
import Kanat.HandlerAccounting
import Kanat.DelimitedMatch
import Kanat.OnVifPacketParser
import Kanat.OnVifMessages
import Kanat.OnVifStreams
import Kanat.OnVifParsedOnce
import Kanat.StreamRegistrations
import Kanat.Bullets
import Kanat.LiveSession
import Kanat.LiveAgreement
import Kanat.PublisherOutcomes
import Kanat.ExactlyOncePublication
import Kanat.Announcer
import Kanat.IdempotencyKeys
import Kanat.SessionInvariants
import Kanat.Recordings
import Kanat.ReplayCache
import Kanat.DeletedVideo
import Kanat.RecordedFiles
import Kanat.SharedVideo
import Kanat.GridLedger
import Kanat.LiveStream
import Kanat.StreamGaps
import Kanat.StreamHandoff
import Kanat.Announcements
import Kanat.KeyDrift
import Kanat.ClientFraming
import Kanat.BigEndian
import Kanat.MotionCommands
import Kanat.MotionPacketParser
import Kanat.SafetyPacketParser
import Kanat.NetworkFrames
import Kanat.MotionCodec
import Kanat.HeaderLocation
import Kanat.KeyedCollections
import Kanat.SampleStatistics
import Kanat.Groups
import Kanat.MediaMTX
import Kanat.CameraSync
import Kanat.CameraSyncConvergence
import Kanat.DeviceService
import Kanat.OneCapture
import Kanat.RangeDeletions
import Kanat.SessionTables
import Kanat.RangeLifecycle
import Kanat.BoardViews
import Kanat.BoardRegistration
import Kanat.StoredRuns
import Kanat.DbWriterSenders
import Kanat.ParsedChannel
import Kanat.ParsedChannelGauge
import Kanat.StreamReport
import Kanat.StreamTimes
import Kanat.FinishingRuns
import Kanat.LiveEnds
import Kanat.DetectionConvergence
import Kanat.RangeModelValidator
import Kanat.StartFailures
import Kanat.BulletRanks
import Kanat.FilterLanguage
import Kanat.Pagination
import Kanat.RecordedParts
import Kanat.WholePackets
import Kanat.CaptureFilters
import Kanat.IntervalBookkeeping
import Kanat.OnVifReassembly
import Kanat.SamplingIntervals
import Kanat.RawChannelGauge
import Kanat.DisplacedTracks
import Kanat.SheetCrops
import Kanat.BaselineMarks
import Kanat.LiveHub
import Kanat.LiveSubscribers
import Kanat.JsNumbers
import Kanat.AcceptedCameras
import Kanat.CameraForms
import Kanat.CameraCommands
import Kanat.ByteRanges
import Kanat.RegexpTexts
import Kanat.TrustedRegexps
import Kanat.SameInGo
import Kanat.PruneCache
import Kanat.PruneRecords
import Kanat.PrunedCopies
import Kanat.BoardMoves
import Kanat.RecordingFrames
import Kanat.GrowingSearch
import Kanat.LabelGroups
import Kanat.MarkMatching
import Kanat.ReplayMoments
import Kanat.Scores
import Kanat.RegressionRule
import Kanat.RegressionControl
import Kanat.BoardSpace
import Kanat.SheetDetections
import Kanat.CarriedHoles
import Kanat.LabelExports
import Kanat.TruthDerivation
import Kanat.DerivedTruth
import Kanat.Calendar
import Kanat.TimeTexts
import Kanat.LocalTime
import Kanat.RecordingNames
import Kanat.Doubles
import Kanat.ReplayNames
import Kanat.FrontendLog
import Kanat.LiveEventStream
import Kanat.RecordingRuns
import Kanat.RequestLog
import Kanat.WhepStream
import Kanat.MotionConversation
import Kanat.ArrivalProposals
import Kanat.CameraTraffic
import Kanat.CarriedOntoMarks
import Kanat.CommaSeparated
import Kanat.FrontendRequests
import Kanat.GreedyChoice
import Kanat.MinedNegatives
import Kanat.PercentTexts
import Kanat.PosixPaths
import Kanat.RendererFiles
import Kanat.SessionExport
import Kanat.SubscribedPackets
import Kanat.Telemetry
import Kanat.TelemetryCounters
