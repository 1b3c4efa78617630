import CyberCache.Wire.Fragmentation
import CyberCache.Wire.RoundTrip
import CyberCache.Wire.Noninterference
import CyberCache.Wire.Writer
import CyberCache.Wire.PasswordHash
import CyberCache.Wire.PayloadList
import CyberCache.Server.WorkerThreads
import CyberCache.Server.Replication
import CyberCache.Server.ErrorResponses
import CyberCache.Config.Parser
import CyberCache.Commands.FormatChecks
import CyberCache.Commands.HeaderBounds
import CyberCache.Commands.UserAgents
import CyberCache.Store.HashTable
import CyberCache.Store.TableRuns
import CyberCache.Store.SessionLock
import CyberCache.Store.Lifecycle
import CyberCache.Store.ReadYourWrites
import CyberCache.Store.Insertion
import CyberCache.Store.Saving
import CyberCache.Store.DeletedObjects
import CyberCache.Store.PayloadAccounting
import CyberCache.Store.Restoring
import CyberCache.Tags.TagQueries
import CyberCache.Tags.Untagged
import CyberCache.Threads.MutexGuards
import CyberCache.Threads.ObjectLock
import CyberCache.Threads.ReaderCount
import CyberCache.Threads.PageManagers
import CyberCache.Threads.QueueAllocation
import CyberCache.Optimizer.ChainRuns
import CyberCache.Optimizer.Recompression
import CyberCache.Optimizer.Eviction
import CyberCache.Optimizer.GarbageCollection
import CyberCache.Optimizer.PageLifetimes
import CyberCache.Optimizer.OptimizationPasses
import CyberCache.Pipeline.InputConnections
import CyberCache.Pipeline.OutputOrder
import CyberCache.Pipeline.OutputSockets
import CyberCache.Pipeline.ClosedBinlog
import CyberCache.Pipeline.TornBinlog
import CyberCache.Config.ErrorReports
import CyberCache.Logging.RotationTemplates
import CyberCache.Console.LineInput
import CyberCache.Client.ResourceOptions
