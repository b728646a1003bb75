import AsyncWinit.Time
import AsyncWinit.Wheel.SortedMap
import AsyncWinit.Reactor.Queue
import AsyncWinit.Reactor.TimerOp
import AsyncWinit.Reactor.Basic
import AsyncWinit.Reactor.Exit
import AsyncWinit.Reactor.Run
import AsyncWinit.Reactor.Fresh
import AsyncWinit.Timer.Basic
import AsyncWinit.Timer.Interval
import AsyncWinit.Timer.System
import AsyncWinit.Timer.Boundary
import AsyncWinit.Reactor.Staging
import AsyncWinit.Timer.Erasure
import AsyncWinit.Timer.Calls
import AsyncWinit.Window.Registry
import AsyncWinit.Reactor.LoopOps
import AsyncWinit.Reactor.Conservation
import AsyncWinit.Reactor.Schedule
import AsyncWinit.Reactor.TimerId
