import Octoproxy.Segments
import Octoproxy.Lists
import Octoproxy.ConnectHead
import Octoproxy.Transition
import Octoproxy.LeftRight
import Octoproxy.Metric
import Octoproxy.MetricHistory
import Octoproxy.MetricStore
import Octoproxy.Accounting
import Octoproxy.Peer
import Octoproxy.Balance
import Octoproxy.QuicStream
import Octoproxy.Backend
import Octoproxy.Config
import Octoproxy.Affinity
import Octoproxy.HostRule
import Octoproxy.LoadBalance
import Octoproxy.TaskPool
import Octoproxy.Tasks
import Octoproxy.Reachable
import Octoproxy.ForceClosed
import Octoproxy.Recovery
import Octoproxy.Failover
import Octoproxy.Confinement
import Octoproxy.Authority
import Octoproxy.Fetcher
import Octoproxy.Selection
import Octoproxy.QuicConnect
import Octoproxy.QuicWindow
import Octoproxy.ProxyTunnel
import Octoproxy.Separation
import Octoproxy.RetryBudget
import Octoproxy.RetryLoop
import Octoproxy.FailoverLoop
import Octoproxy.Client
import Octoproxy.SubjectAltName
import Octoproxy.FairLock
import Octoproxy.Cancellation
import Octoproxy.Revival
import Octoproxy.Proxy
import Octoproxy.Session
import Octoproxy.Relay
import Octoproxy.Counters
import Octoproxy.Renewal
import Octoproxy.Server
import Octoproxy.Settling
import Octoproxy.Startup
import Octoproxy.Dispatch
import Octoproxy.QuicRelay
import Octoproxy.Calls
import Octoproxy.CallLocks
import Octoproxy.CallCancel
import Octoproxy.CallRuns
