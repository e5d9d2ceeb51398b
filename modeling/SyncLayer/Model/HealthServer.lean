/-!
# Starting and Stopping the Health Server

`health/HealthServer.cpp`: the flag, the server thread and the `listen` call that it blocks
in. The constructor of the engine calls `start`, `~Engine()` and then `~HealthServer()` call
`stop`, all from one thread. The server thread does not look at the flag, so a call of `start`
is one step, and so is `stop` up to the join.
-/

namespace SyncLayer.Model

/-- Where `runServer` is. -/
inductive ServerThread.Phase where
  /-- On its way to `listen`. -/
  | starting
  /-- In `listen`; the port is bound. -/
  | serving
  /-- `listen` has returned. -/
  | left
  deriving DecidableEq

/-- The server thread, with the `httplib::Server` that is a local variable of `runServer`. -/
structure ServerThread where
  phase : ServerThread.Phase := .starting
  /-- `Server::stop` has been called on that server. -/
  stopRequested : Bool := false
  deriving DecidableEq

structure HealthServer where
  running_ : Bool := false
  /-- The thread while it is joinable. -/
  serverThread_ : Option ServerThread := none
  /-- The caller waits in `stop()` for the thread. -/
  joining : Bool := false
  deriving DecidableEq

inductive HealthServer.Action where
  /-- `start()`; whether the thread can be created. -/
  | start (created : Bool)
  /-- `stop()`, up to the join. -/
  | stop
  /-- The join returns, and `stop()` with it. -/
  | joined
  /-- The thread enters `listen`; whether the port can be bound. -/
  | bind (ok : Bool)
  /-- `listen` returns because the server was asked to stop. -/
  | leave
  deriving DecidableEq

namespace HealthServer

/-- `start()`. No state is left when `std::terminate` is called. -/
def start (created : Bool) (s : HealthServer) : Option HealthServer :=
  if s.running_ then some s
  else
    let s := { s with running_ := true }
    -- the exception of `std::thread` leaves the flag set
    if !created then some s
    -- a thread that is joinable must not be assigned to
    else if s.serverThread_.isSome then none
    else some { s with serverThread_ := some {} }

/-- `stop()`, up to the join. -/
def stop (s : HealthServer) : HealthServer :=
  if !s.running_ then s
  else
    let s := { s with running_ := false }
    if s.serverThread_.isSome then { s with joining := true } else s

/-- `listen`: it returns at once when the port cannot be bound. -/
def listen (ok : Bool) (t : ServerThread) : Option ServerThread :=
  if t.phase = .starting then some { t with phase := if ok then .serving else .left } else none

/-- `listen` returns, and the thread ends. -/
def leave (t : ServerThread) : Option ServerThread :=
  if t.phase = .serving ∧ t.stopRequested then some { t with phase := .left } else none

/-- The server thread takes a step. -/
def inThread (s : HealthServer) (f : ServerThread → Option ServerThread) :
    Option HealthServer :=
  match s.serverThread_ with
  | some t => (f t).map fun t => { s with serverThread_ := some t }
  | none => none

/-- `serverThread_.join()` returns once the thread has ended. -/
def join (s : HealthServer) : Option HealthServer :=
  match s.serverThread_ with
  | some t =>
    if s.joining ∧ t.phase = .left then some { s with serverThread_ := none, joining := false }
    else none
  | none => none

/-- While the caller waits, only the server thread moves. -/
def step (s : HealthServer) : Action → Option HealthServer
  | .start created => if s.joining then none else s.start created
  | .stop => if s.joining then none else some s.stop
  | .joined => s.join
  | .bind ok => s.inThread (listen ok)
  | .leave => s.inThread leave

end HealthServer

end SyncLayer.Model
