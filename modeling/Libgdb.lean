import Libgdb.Library.GuardedRuns
import Libgdb.Library.CheckedPrograms
import Libgdb.Library.KeyedUpdates
import Libgdb.Library.RefusedCalls
import Libgdb.Model.Dispatch
import Libgdb.SoftwareBreakpoints
import Libgdb.MemoryReads
import Libgdb.HexCodecs
import Libgdb.TextFormats
import Libgdb.MemoryWrites
import Libgdb.ThreadIds
import Libgdb.IdNumbers
import Libgdb.TargetThread
import Libgdb.RegisterTexts
import Libgdb.AllStop
import Libgdb.Isolation
import Libgdb.ThreadList
import Libgdb.ListedThreads
import Libgdb.OtherWrites
import Libgdb.BreakpointAtomicity
import Libgdb.IdLookups
import Libgdb.AliveQueries
import Libgdb.ThreadSelection
import Libgdb.CurrentThread
import Libgdb.HardwareRegisters
import Libgdb.Detaching
import Libgdb.RegisterMirror
import Libgdb.FailedRegistrations
import Libgdb.RefusedSets
import Libgdb.RepeatedStops
import Libgdb.DetachTraces
import Libgdb.WatchReplies
import Libgdb.ContinuedThreads
import Libgdb.MatchedActions
import Libgdb.RejectedResumes
import Libgdb.AcceptedResumes
import Libgdb.SteppingFlags
import Libgdb.FailedWrites
import Libgdb.UnreadTails
import Libgdb.OpenIds
import Libgdb.CountedDigits
import Libgdb.PacketEnds
import Libgdb.SerialDemux
import Libgdb.TcpInput
import Libgdb.CharQueues
import Libgdb.Retransmission
import Libgdb.Framing
import Libgdb.Conversations
import Libgdb.FormatPieces
import Libgdb.WordAtATime
