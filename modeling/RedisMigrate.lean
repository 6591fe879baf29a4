import RedisMigrate.Lts
import RedisMigrate.Loop
import RedisMigrate.RefTable
import RedisMigrate.RecordStream
import RedisMigrate.Calendar
import RedisMigrate.LocalTime
import RedisMigrate.CivilFields
import RedisMigrate.ModuleApi
import RedisMigrate.Log
import RedisMigrate.LogText
import RedisMigrate.Registry
import RedisMigrate.Filter
import RedisMigrate.ModuleRuns
import RedisMigrate.FilterEffect
import RedisMigrate.PortSlot
import RedisMigrate.CommandActions
import RedisMigrate.LogInit
import RedisMigrate.LogRecords
import RedisMigrate.StringLifetimes
import RedisMigrate.WriteProtection
import RedisMigrate.Monitor
import RedisMigrate.ThreadPool
import RedisMigrate.PoolInvariants
import RedisMigrate.PoolQueue
import RedisMigrate.Server
import RedisMigrate.PoolServer
import RedisMigrate.PoolProgress
import RedisMigrate.PoolWakeup
import RedisMigrate.PoolFeeding
import RedisMigrate.PoolShutdown
import RedisMigrate.Decoder
import RedisMigrate.LongLong
import RedisMigrate.Reader
import RedisMigrate.ReplyDecoder
import RedisMigrate.ReaderRefinement
import RedisMigrate.ReaderRuns
import RedisMigrate.ReplyGrammar
import RedisMigrate.Region
import RedisMigrate.CommandFormat
import RedisMigrate.CommandSds
import RedisMigrate.CommandTemplate
import RedisMigrate.CommandRoundTrip
import RedisMigrate.Client
import RedisMigrate.Buckets
import RedisMigrate.Dict
import RedisMigrate.CommandArguments
import RedisMigrate.Async
import RedisMigrate.AsyncSteps
import RedisMigrate.AsyncTraffic
import RedisMigrate.AsyncControl
import RedisMigrate.AsyncReplies
