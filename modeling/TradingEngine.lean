import TradingEngine.Machinery.Run
import TradingEngine.OrderBook.Resync
import TradingEngine.Pnl.Conservation
import TradingEngine.Binance.SnapshotEpochs
import TradingEngine.Order.FillAccounting
import TradingEngine.Order.OpenOrders
import TradingEngine.Pnl.FillBooking
import TradingEngine.MeanReversion.OrderCycle
import TradingEngine.Order.Persistence
import TradingEngine.Order.Simulator
import TradingEngine.Json.Termination
import TradingEngine.Json.RoundTrip
import TradingEngine.Strategy.LifeCycle
import TradingEngine.WebSocket.Split
import TradingEngine.WebSocket.Messages
import TradingEngine.Http.ResponseStream
import TradingEngine.WebSocket.HandOver
import TradingEngine.Socket.WriteStream
import TradingEngine.Http.ResponseRoundTrip
import TradingEngine.Http.ResponseWriting
import TradingEngine.Http.RequestAssembly
import TradingEngine.Http.ServerPool
import TradingEngine.WebSocketServer.Reuse
import TradingEngine.WebSocketServer.Descriptors
import TradingEngine.WebSocketServer.Authentication
import TradingEngine.WebSocket.OwnershipSafety
import TradingEngine.Cache.SingleThreadCachePool
import TradingEngine.Cache.ObjectPointer
import TradingEngine.Coroutine.EpollWakeUp
import TradingEngine.Coroutine.Future
import TradingEngine.Coroutine.DestroyTask
import TradingEngine.Cache.PoolExclusivity
import TradingEngine.Coroutine.EpollLoop
import TradingEngine.Http.ClientRequest
import TradingEngine.Coroutine.EpollClose
import TradingEngine.Http.ClientReconnect
import TradingEngine.OrderBook.Extraction
import TradingEngine.OrderBook.SnapshotPool
import TradingEngine.OrderBook.Rebase
import TradingEngine.OrderBook.Manager
import TradingEngine.Machinery.Buckets
import TradingEngine.VolumeStat.TradeLog
import TradingEngine.BuySpot.BuyPoints
import TradingEngine.Machinery.Binary64
import TradingEngine.Json.NumberText
import TradingEngine.Json.Document
import TradingEngine.Json.Reading
import TradingEngine.Json.Denotation
import TradingEngine.Json.NumberReading
import TradingEngine.Json.Store
import TradingEngine.Json.Counting
import TradingEngine.Json.Confinement
import TradingEngine.Json.Cloning
import TradingEngine.Json.Operations
import TradingEngine.Json.Progress
import TradingEngine.Json.Sharing
import TradingEngine.Json.Quoting
import TradingEngine.Api.Authentication
import TradingEngine.Machinery.Paths
import TradingEngine.Api.RouteController
import TradingEngine.Api.Routing
import TradingEngine.Api.ServedFiles
import TradingEngine.Http.Lines
import TradingEngine.Http.RequestParams
import TradingEngine.WebSocket.FrameWords
import TradingEngine.WebSocketServer.Exceptions
import TradingEngine.Http.FormData
import TradingEngine.Json.ParseResult
import TradingEngine.Http.Multipart
import TradingEngine.Http.RequestErrors
import TradingEngine.Machinery.Sink
import TradingEngine.Json.Items
import TradingEngine.Json.ItemParse
import TradingEngine.Http.BodyItems
import TradingEngine.Machinery.Histogram
import TradingEngine.Metric.LatencyStats
import TradingEngine.Instrument.Rounding
import TradingEngine.Binance.OrderQuery
import TradingEngine.Order.ClientOrderIds
import TradingEngine.Json.Records
import TradingEngine.Order.JsonForm
import TradingEngine.Http.ClientBuffer
import TradingEngine.WebSocketServer.TlsConnection
import TradingEngine.MarketMaker.Quoting
import TradingEngine.Http.ChunkErrors
import TradingEngine.Coroutine.FullQueue
import TradingEngine.Http.ChunkSize
import TradingEngine.Utils.Base64
import TradingEngine.Machinery.Arrangement
import TradingEngine.Metric.PipelineTiming
import TradingEngine.Cache.StringSharing
import TradingEngine.Binance.BookMirror
import TradingEngine.Coroutine.EventBaseManager
import TradingEngine.WebSocket.Channel
import TradingEngine.Account.AccountManager
import TradingEngine.Machinery.Durable
import TradingEngine.Account.Restarts
import TradingEngine.Machinery.Parallel
import TradingEngine.Metric.FlowMetric
import TradingEngine.Instrument.Subscriptions
import TradingEngine.Instrument.SubscriptionRestarts
