import Flowd.Addr
import Flowd.SplayTree.Basic
import Flowd.SplayTree.Ops
import Flowd.Peers.Basic
import Flowd.Peers.Invariant
import Flowd.Registry
import Flowd.Peers.Refinement
import Flowd.Wire
import Flowd.Netflow
import Flowd.Decode
import Flowd.Input
import Flowd.History.Run
import Flowd.History.Lru
import Flowd.History.Counters
import Flowd.Log
import Flowd.Mainloop
import Flowd.Mainloop.Pfd
import Flowd.Mainloop.Control
import Flowd.Mainloop.LogFd
import Flowd.Mainloop.Dispatch
import Flowd.Mainloop.Lifecycle
import Flowd.Mainloop.Run
import Flowd.Daemon
