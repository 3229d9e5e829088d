import Loku.Lib.Table
import Loku.Lib.Transaction
import Loku.Lib.Mirror
import Loku.Lib.Groups
import Loku.Lib.Double
import Loku.Lib.Text
import Loku.Lib.PercentCode
import Loku.Lib.Like
import Loku.Lib.Run
import Loku.Lib.Memo
import Loku.Lib.Quoted
import Loku.Lib.ByteSlice
import Loku.Lib.Paging
import Loku.Lib.Cover
import Loku.Lib.Record
import Loku.Lib.Xml
import Loku.Lib.PathTree
import Loku.Path
import Loku.FileTree
import Loku.TextPath
import Loku.Scalar
import Loku.Index.Store
import Loku.Index.Rows
import Loku.Index.FullText
import Loku.Index.Browse
import Loku.Index.TreeRemoval
import Loku.Library
import Loku.Config
import Loku.Disc
import Loku.RipNames
import Loku.Nfo
import Loku.Nfo.Entities
import Loku.Nfo.SanitizeLoop
import Loku.Nfo.References
import Loku.Nfo.ValidDocuments
import Loku.Nfo.Parse
import Loku.Nfo.ElementOrder
import Loku.Media.Sidecars
import Loku.Index.Scan
import Loku.Index.Watch
import Loku.Index.Collect
import Loku.Index.Titles
import Loku.Index.KeptColumns
import Loku.Index.DirectoryView
import Loku.Index.CaseFold
import Loku.Index.DirectoryRows
import Loku.Index.ScanSpec
import Loku.Index.Listing
import Loku.Index.FlushSpec
import Loku.Index.History
import Loku.Index.FullScan
import Loku.Index.ScanAll
import Loku.Index.ScanOutcome
import Loku.Index.GenerationRestart
import Loku.Index.FlushRefines
import Loku.Index.Boundary
import Loku.Index.EventMapping
import Loku.Media.Codecs
import Loku.Media.Compat
import Loku.Media.Profiles
import Loku.Media.Ffmpeg
import Loku.Media.Worker
import Loku.Media.FfmpegCommand
import Loku.Media.Ownership
import Loku.Media.Probe
import Loku.Media.ProbePass
import Loku.Serde
import Loku.Media.Ffprobe
import Loku.Routes.Types
import Loku.Routes.NativeHint
import Loku.Routes.Browse
import Loku.Routes.Navigation
import Loku.Routes.BrowseHandler
import Loku.Routes.DiscSets
import Loku.Routes.MainTitles
import Loku.Routes.Assembled
import Loku.Index.Search
import Loku.Index.FtsSyntax
import Loku.Routes.Search
import Loku.Routes.SearchPages
import Loku.Media.Drain
import Loku.Media.ThumbnailDuty
import Loku.Frontend.Decode
import Loku.Routes.Payloads
import Loku.Routes.Item
import Loku.Routes.Server
import Loku.Routes.Files
import Loku.Frontend.Api
import Loku.Frontend.RoundTrip
import Loku.Frontend.Pages
import Loku.Frontend.Route
import Loku.Frontend.Html
import Loku.Frontend.Views
import Loku.Frontend.Links
import Loku.Frontend.Media
import Loku.Frontend.Description
import Loku.Frontend.Paging
import Loku.Frontend.Session
import Loku.Frontend.Wire
import Loku.Frontend.Answers
import Loku.System.CosmeticFailure
import Loku.System.NoRepeat
import Loku.System.Maintenance
import Loku.System.MaintenanceRuns
import Loku.System.EventLoop
import Loku.System.Rebuild
import Loku.System.NoLostUpdate
import Loku.System.Configured
import Loku.System.ProbedOnce
import Loku.System.Undeterminable
import Loku.System.Rescan
import Loku.System.WorkerFiles
import Loku.System.StoredColumns
import Loku.System.Wakeup
import Loku.System.Visit
import Loku.System.EveryVideo
import Loku.System.ShownFiles
import Loku.System.ServedCopies
import Loku.System.LiveVisit
import Loku.System.EveryHit
import Loku.System.EveryPick
