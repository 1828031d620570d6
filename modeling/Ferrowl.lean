import Ferrowl.ReadRangeSpecs
import Ferrowl.TabDefaults
import Ferrowl.TabNames
import Ferrowl.TableOrder
import Ferrowl.BackoffWaits
import Ferrowl.ClientPoll
import Ferrowl.Bridge
import Ferrowl.MonitorRecency
import Ferrowl.MonitorMessages
import Ferrowl.MemoryLayout
import Ferrowl.TabEdits
import Ferrowl.MonitorDialogs
import Ferrowl.SerialSession
import Ferrowl.OcppCalls
import Ferrowl.Heartbeats
import Ferrowl.Timestamps
import Ferrowl.StationCalls
import Ferrowl.OcppRfids
import Ferrowl.CsmsEvents
import Ferrowl.MessageTee
import Ferrowl.StopBooking
import Ferrowl.HeadlessLog
import Ferrowl.SimEvents
import Ferrowl.ScriptRoundTrip
import Ferrowl.CodeInputSplice
import Ferrowl.MarkdownSafety
import Ferrowl.DedupeNames
import Ferrowl.CsmsRuns
import Ferrowl.ModuleViews
import Ferrowl.AppFocus
import Ferrowl.DiffFullFile
import Ferrowl.DiffScroll
import Ferrowl.DiffCounts
import Ferrowl.FileTreeSelection
