import RedisLuaLinux.Library.Run
import RedisLuaLinux.LinuxC.ServerRegistry
import RedisLuaLinux.LinuxC.Echo
import RedisLuaLinux.LinuxC.Client
import RedisLuaLinux.LinuxC.ClientDispatch
import RedisLuaLinux.Library.Interaction
import RedisLuaLinux.Library.SqlLexer
import RedisLuaLinux.Lua.Store
import RedisLuaLinux.Lua.Userquery
import RedisLuaLinux.Lua.CacheRows
import RedisLuaLinux.Lua.Counting
import RedisLuaLinux.Lua.CachedCount
import RedisLuaLinux.Lua.Sequential
import RedisLuaLinux.Lua.SelectText
import RedisLuaLinux.Library.KeyedTable
import RedisLuaLinux.Library.SqlInsert
import RedisLuaLinux.Python.StockInsert
import RedisLuaLinux.Python.History
import RedisLuaLinux.Python.HistorySnapshots
import RedisLuaLinux.Python.HistoryComplete
import RedisLuaLinux.Library.Attempt
import RedisLuaLinux.Lua.MissingReplies
import RedisLuaLinux.Lua.FailedUpdate
import RedisLuaLinux.LinuxC.FindNumber
import RedisLuaLinux.LinuxC.FindOverflow
import RedisLuaLinux.LinuxC.ClientForward
import RedisLuaLinux.LinuxC.ClientConnection
import RedisLuaLinux.LinuxC.ClientInput
import RedisLuaLinux.Library.Buffer
import RedisLuaLinux.LinuxC.ReceiveBuffer
import RedisLuaLinux.Python.Daily
import RedisLuaLinux.Python.DailyStocks
import RedisLuaLinux.Python.DailyRun
import RedisLuaLinux.Python.HistoryErrors
import RedisLuaLinux.Python.FloatColumns
import RedisLuaLinux.Library.CString
import RedisLuaLinux.Library.LoopEnd
import RedisLuaLinux.FreeSwitch.Esl
import RedisLuaLinux.FreeSwitch.Linger
import RedisLuaLinux.FreeSwitch.TestClient
import RedisLuaLinux.FreeSwitch.Greetings
import RedisLuaLinux.Library.PythonRepr
import RedisLuaLinux.Python.StockText
import RedisLuaLinux.LinuxC.BatchTurn
import RedisLuaLinux.LinuxC.HangUp
import RedisLuaLinux.Library.Fifo
import RedisLuaLinux.Library.Progress
import RedisLuaLinux.Spdlog.CircularQ
import RedisLuaLinux.Spdlog.LogMsg
import RedisLuaLinux.Spdlog.ThreadPool
import RedisLuaLinux.Spdlog.PoolHistory
import RedisLuaLinux.Spdlog.PoolEnding
import RedisLuaLinux.Spdlog.PoolWakeups
import RedisLuaLinux.Spdlog.PeriodicWorker
import RedisLuaLinux.Library.TryLoops
import RedisLuaLinux.Spdlog.Logger
import RedisLuaLinux.Spdlog.AsyncLogger
import RedisLuaLinux.LinuxC.StreamFlow
import RedisLuaLinux.LinuxC.EchoNetwork
import RedisLuaLinux.Library.Shelves
import RedisLuaLinux.Spdlog.FileHelper
import RedisLuaLinux.Spdlog.RotatingFile
import RedisLuaLinux.Spdlog.RotatingHistory
import RedisLuaLinux.Spdlog.RotatingRetention
import RedisLuaLinux.Spdlog.FlagFormatter
import RedisLuaLinux.Spdlog.PatternFormatter
import RedisLuaLinux.Spdlog.PatternLanguage
import RedisLuaLinux.Spdlog.AnsicolorSink
import RedisLuaLinux.Spdlog.ColoredLines
import RedisLuaLinux.Library.Repeats
import RedisLuaLinux.Spdlog.DupFilterSink
import RedisLuaLinux.Library.Hex
import RedisLuaLinux.Spdlog.BinToHex
import RedisLuaLinux.Spdlog.DailyFile
import RedisLuaLinux.Spdlog.DailyPeriods
import RedisLuaLinux.Spdlog.Registry
