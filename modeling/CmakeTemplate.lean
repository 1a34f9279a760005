import CmakeTemplate.Proofs.LinkedList.Linked
import CmakeTemplate.Proofs.LinkedList.Sorted
import CmakeTemplate.Proofs.LinkedList.Owned
import CmakeTemplate.Proofs.Queue.Fifo
import CmakeTemplate.Proofs.Queue.Wakeup
import CmakeTemplate.Proofs.Queue.Clear
import CmakeTemplate.Proofs.ThreadPool.Shutdown
import CmakeTemplate.Proofs.ThreadPool.Awake
import CmakeTemplate.Proofs.ThreadPool.Joins
import CmakeTemplate.Proofs.HashTable.Keys
import CmakeTemplate.Proofs.HashTable.Listed
import CmakeTemplate.Proofs.HashTable.Reported
import CmakeTemplate.Proofs.Server.Owner
import CmakeTemplate.Proofs.Server.Table
import CmakeTemplate.Proofs.Server.Limit
import CmakeTemplate.Proofs.Server.Register
import CmakeTemplate.Proofs.Server.Init
import CmakeTemplate.Proofs.Server.HandleConnections
import CmakeTemplate.Proofs.Server.Stale
import CmakeTemplate.Proofs.Server.Teardown
import CmakeTemplate.Proofs.Server.Loop
import CmakeTemplate.Proofs.Server.Passes
import CmakeTemplate.Proofs.Server.Polled
import CmakeTemplate.Proofs.Graph.EdgeLists
import CmakeTemplate.Proofs.Graph.Release
import CmakeTemplate.Proofs.Graph.Cleared
import CmakeTemplate.Proofs.Graph.Bfs
import CmakeTemplate.Proofs.Graph.Lookup
import CmakeTemplate.Proofs.Graph.Search
import CmakeTemplate.Proofs.Graph.Named
import CmakeTemplate.Proofs.SocketIo.Stream
import CmakeTemplate.Proofs.SocketIo.Again
import CmakeTemplate.Proofs.Vector.Refines
import CmakeTemplate.Proofs.Vector.Bounds
import CmakeTemplate.Proofs.Vector.Touches
import CmakeTemplate.Proofs.Vector.Sort
import CmakeTemplate.Proofs.Vector.Appends
import CmakeTemplate.Proofs.Vector.Occurrences
import CmakeTemplate.Proofs.Stack.Lifo
import CmakeTemplate.Proofs.Crypto.RoundTrip
import CmakeTemplate.Proofs.Crypto.SessionKey
import CmakeTemplate.Proofs.Graph.Preorder
import CmakeTemplate.Proofs.Graph.Leaves
import CmakeTemplate.Proofs.Graph.RemoveNode
import CmakeTemplate.Proofs.Comparisons.Order
import CmakeTemplate.Proofs.LinkedList.Search
import CmakeTemplate.Proofs.LinkedList.Ends
import CmakeTemplate.Proofs.HashTable.Allocation
import CmakeTemplate.Proofs.OptionHandler.Order
import CmakeTemplate.Proofs.Server.Config
import CmakeTemplate.Proofs.System.OsName
import CmakeTemplate.Proofs.LinkedList.RandomItem
import CmakeTemplate.Proofs.HashTable.Polynomial
import CmakeTemplate.Proofs.Math.RoundTrip
import CmakeTemplate.Proofs.System.NetworkInterfaces
import CmakeTemplate.Proofs.Logging.MessageLog
import CmakeTemplate.Proofs.Matrix.Init
import CmakeTemplate.Proofs.Crypto.Poly1305
import CmakeTemplate.Proofs.Crypto.Salsa20
import CmakeTemplate.Proofs.Crypto.Curve25519
import CmakeTemplate.Proofs.Crypto.Sha512
import CmakeTemplate.Proofs.Crypto.Xsalsa20
import CmakeTemplate.Proofs.Crypto.Exchange
import CmakeTemplate.Lib.Progress
import CmakeTemplate.Proofs.ThreadPool.Drains
import CmakeTemplate.Proofs.ThreadPool.Returns
import CmakeTemplate.Proofs.ThreadPool.Hangs
import CmakeTemplate.Proofs.HashTable.Owned
import CmakeTemplate.Proofs.Server.Main
import CmakeTemplate.Proofs.Server.Sockets
import CmakeTemplate.Proofs.System.Fields
import CmakeTemplate.Proofs.Strings.Operations
import CmakeTemplate.Proofs.Crypto.Sha512Words
