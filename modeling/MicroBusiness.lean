import MicroBusiness.Text
import MicroBusiness.HttpRequest
import MicroBusiness.HttpContext
import MicroBusiness.HttpResponse
import MicroBusiness.Program
import MicroBusiness.Task
import MicroBusiness.HttpServer
import MicroBusiness.RequestIsolation
import MicroBusiness.SocketIO
import MicroBusiness.TcpConnection
import MicroBusiness.Accumulator
import MicroBusiness.ResponseDemux
import MicroBusiness.EventLoop
import MicroBusiness.BackendLink
import MicroBusiness.ClientAttribution
import MicroBusiness.RequestForwarding
import MicroBusiness.CommodityTable
import MicroBusiness.Purchase
import MicroBusiness.StockInvariant
import MicroBusiness.ConnectionUse
import MicroBusiness.ConnectionTurns
import MicroBusiness.ConnectionPool
import MicroBusiness.ForwardedRequest
import MicroBusiness.EndToEnd
import MicroBusiness.Segmentation
import MicroBusiness.Pipelining
import MicroBusiness.RequestBodies
import MicroBusiness.RequestLineAgreement
import MicroBusiness.Addressability
import MicroBusiness.Upstreams
import MicroBusiness.Failover
import MicroBusiness.ClientTable
import MicroBusiness.ClientLookup
import MicroBusiness.Dispatch
import MicroBusiness.BackendLoss
import MicroBusiness.Routing
import MicroBusiness.HeaderInsertion
import MicroBusiness.CondVar
import MicroBusiness.TaskQueue
import MicroBusiness.Wakeups
import MicroBusiness.Threadpool
import MicroBusiness.Readiness
import MicroBusiness.Fields
import MicroBusiness.ConfigParser
import MicroBusiness.Folds
import MicroBusiness.ConfigFile
import MicroBusiness.ConfigParsing
import MicroBusiness.ConfigSoundness
import MicroBusiness.ConfigStartup
import MicroBusiness.Positions
import MicroBusiness.StringPositions
import MicroBusiness.QueryEncoding
import MicroBusiness.RejectedRequests
import MicroBusiness.ConnectionHistory
import MicroBusiness.QuantityConversion
import MicroBusiness.LocationReach
import MicroBusiness.SocketBytes
import MicroBusiness.Resources
import MicroBusiness.ResultSets
import MicroBusiness.Termination
import MicroBusiness.Completion
import MicroBusiness.AtomicTasks
import MicroBusiness.Quiescence
import MicroBusiness.Delivery
import MicroBusiness.Deployment
import MicroBusiness.Interference
import MicroBusiness.Catalogue
import MicroBusiness.Linearizability
import MicroBusiness.Atomicity
import MicroBusiness.PoolPieces
import MicroBusiness.Startup
import MicroBusiness.Framing
import MicroBusiness.ResponseFraming
import MicroBusiness.Reading
