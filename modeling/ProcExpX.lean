import ProcExpX.WinSys.ThreadLists
import ProcExpX.WinSys.Lookups
import ProcExpX.WinSys.FilteredCalls
import ProcExpX.WinSys.FailedCalls
import ProcExpX.WinSys.CpuRange
import ProcExpX.WinSys.Mirrors
import ProcExpX.WinSys.EntryPoints
import ProcExpX.WinSys.HandleLedger
import ProcExpX.WinSys.RegionReports
import ProcExpX.App.RowsExact
import ProcExpX.App.KillTarget
import ProcExpX.App.KillFailed
import ProcExpX.App.OpenDialog
import ProcExpX.App.FailedUpdates
import ProcExpX.App.Registries
import ProcExpX.App.Highlights
import ProcExpX.WinSys.HandleTypes
import ProcExpX.App.ServedRequests
import ProcExpX.App.VisibleRows
import ProcExpX.App.SortOrder
import ProcExpX.App.Attributes
import ProcExpX.WinSys.MultiStrings
import ProcExpX.App.FormatHelper
import ProcExpX.App.PurgeCounters
import ProcExpX.WinSys.RegionWalk
import ProcExpX.WinSys.SnapshotLayout
import ProcExpX.WinSys.Careers
import ProcExpX.App.ShownRows
import ProcExpX.App.SortedRows
import ProcExpX.App.Pace
import ProcExpX.App.PaintedRows
import ProcExpX.App.CachedAnswers
import ProcExpX.WinSys.CpuTotals
import ProcExpX.WinSys.HandleBuffer
import ProcExpX.App.RawMemory
import ProcExpX.App.SettledRows
import ProcExpX.App.Parents
