import Olaf.Jam
import Olaf.Repeats
import Olaf.Batching
import Olaf.SearchRange
import Olaf.SelfMatch
import Olaf.DbMem
import Olaf.Asserting
import Olaf.LocalMaxima
import Olaf.TimeLabels
import Olaf.Lossless
import Olaf.TimeShift
import Olaf.FpDbWriterMem
import Olaf.ThreadCount
import Olaf.ParallelCache
import Olaf.ParallelQuery
import Olaf.Report
import Olaf.IdentityFilter
import Olaf.Reader
import Olaf.Participation
import Olaf.VanHerk
import Olaf.Lemire
import Olaf.HashFields
import Olaf.Identifier
import Olaf.CacheLines
import Olaf.WriterBuffer
import Olaf.Wasm
import Olaf.OldMatches
import Olaf.DequeCapacity
import Olaf.StoredMetaData
import Olaf.ResultLine
import Olaf.FragmentedQuery
import Olaf.JsonString
import Olaf.JsonConfig
import Olaf.PackedCompare
import Olaf.FrameRing
import Olaf.NeonFilter
import Olaf.Insertion
import Olaf.TableRuns
import Olaf.MatchTable
import Olaf.Streaming
import Olaf.Commands
import Olaf.Answers
import Olaf.Merge
import Olaf.QueryObjects
import Olaf.StoreLog
import Olaf.CachedStore
import Olaf.PythonWrapper
