import Poolserver.Bitcoin.Coinbase
import Poolserver.Bitcoin.MerkleTree
import Poolserver.NetworkMgr.Templates
import Poolserver.NetworkMgr.Notifications
import Poolserver.Stratum.BlockSolution
import Poolserver.Stratum.Miner
import Poolserver.Stratum.Extranonce
import Poolserver.Stratum.Duplicates
import Poolserver.Stratum.Difficulty
import Poolserver.Stratum.Receive
import Poolserver.DataMgr.Inserts
import Poolserver.Stratum.Accounting
import Poolserver.Stratum.Credit
import Poolserver.Stratum.DoubleWork
import Poolserver.JSON.RoundTrip
import Poolserver.Stratum.Variance
import Poolserver.Stratum.Failures
import Poolserver.Stratum.Session
import Poolserver.Stratum.JobTable
import Poolserver.MySQL.DatabaseConnection
import Poolserver.Stratum.ClientSet
import Poolserver.Server.Pool
import Poolserver.NetworkMgr.Carried
import Poolserver.NetworkMgr.Acceptance
import Poolserver.JSONRPC.Segments
import Poolserver.Stratum.Targets
import Poolserver.JSON.Counters
import Poolserver.Stratum.PacketLimit
import Poolserver.Stratum.DiffRange
import Poolserver.Stratum.HashrateWindow
import Poolserver.Stratum.BadShares
import Poolserver.Bitcoin.Script
import Poolserver.MySQL.ResultSets
import Poolserver.Bitcoin.Decoding
import Poolserver.Stratum.MerkleIndices
import Poolserver.JSON.Calls
import Poolserver.Shared.HexCoding
import Poolserver.Stratum.Redirect
import Poolserver.DataMgr.Pipeline
import Poolserver.Server.Locks
import Poolserver.MySQL.WorkerPool
import Poolserver.JSONRPC.Request
import Poolserver.Server.Rest
import Poolserver.Stratum.Authorization
import Poolserver.NetworkMgr.Submission
