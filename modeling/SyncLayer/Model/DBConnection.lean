import SyncLayer.Library.HandleTrace
import SyncLayer.Model.Engine

/-!
# Connection Objects

`db/DBConnection.cpp`: an object owns the `PGconn*` that it has opened, hands it on when it
is moved from, and finishes it in the end. Objects are kept by address, each with its
member `conn_`, next to the trace of all handles that `PQconnectdb` has returned.
-/

namespace SyncLayer.Model

open SyncLayer.HandleTrace

/-- What `PQconnectdb` returns: null when there is no memory for it, else a handle. The
    connection came up if its `PQstatus` is `CONNECTION_OK`. -/
inductive ConnectReply (H : Type) where
  | null
  | handle (h : H) (up : Bool)

def ConnectReply.conn {H : Type} : ConnectReply H → Option H
  | .null => none
  | .handle h _ => some h

/-- `PQstatus(conn) == CONNECTION_OK`; null is a bad connection. -/
def ConnectReply.ok {H : Type} : ConnectReply H → Bool
  | .null => false
  | .handle _ up => up

/-- The live objects and the handles. -/
structure Connections (O H : Type) where
  /-- The member `conn_` of every live object. -/
  conn_ : O → Option (Option H) := fun _ => none
  /-- Newest first. -/
  trace : List (Event H) := []

namespace Connections

variable {O H : Type}

/-- The handle is used; null leaves no trace. -/
def note (m : Connections O H) (ev : H → Event H) : Option H → Connections O H
  | none => m
  | some h => { m with trace := ev h :: m.trace }

/-- `PQfinish` -/
def PQfinish (m : Connections O H) (conn : Option H) : Connections O H := m.note .released conn

/-- The handle that an object holds. -/
def raw (m : Connections O H) (this : O) : Option H := (m.conn_ this).join

/-- `if (conn_) PQfinish(conn_)` -/
def finishOwn (m : Connections O H) (this : O) : Connections O H :=
  if (m.raw this).isSome then m.PQfinish (m.raw this) else m

variable [DecidableEq O]

/-- `conn_ = conn` -/
def set (m : Connections O H) (this : O) (conn : Option H) : Connections O H :=
  { m with conn_ := Function.update m.conn_ this (some conn) }

/-- The object at this address is gone. -/
def free (m : Connections O H) (this : O) : Connections O H :=
  { m with conn_ := Function.update m.conn_ this none }

end Connections

namespace DBConnection

variable {O H : Type}

def isOpen (this : O) (m : Connections O H) : Bool := (m.raw this).isSome

variable [DecidableEq O]

/-- `DBConnection(const std::string&)`. After an exception, `false`, there is no object. -/
def construct (this : O) (reply : ConnectReply H) (m : Connections O H) : Bool × Connections O H :=
  let conn := reply.conn
  let m := m.note .got conn
  let m := m.note .read conn
  if !reply.ok then
    -- the message of the exception is read from the handle
    let m := m.note .read conn
    let m := m.PQfinish conn
    (false, m)
  else
    (true, m.set this conn)

/-- `~DBConnection()` -/
def destruct (this : O) (m : Connections O H) : Connections O H :=
  let m := m.finishOwn this
  m.free this

/-- `DBConnection(DBConnection&&)` -/
def moveConstruct (this other : O) (m : Connections O H) : Connections O H :=
  let m := m.set this (m.raw other)
  m.set other none

/-- `operator=(DBConnection&&)` -/
def moveAssign (this other : O) (m : Connections O H) : Connections O H :=
  if this ≠ other then
    let m := m.finishOwn this
    let m := m.set this (m.raw other)
    m.set other none
  else m

end DBConnection

/-- The connections of `ReplicationManager::ReplicationManager`. When the second one throws,
    the member that holds the first is destroyed. -/
def ReplicationManager.openConnections {O H : Type} [DecidableEq O] (address : Conn → O)
    (reply : Conn → ConnectReply H) (m : Connections O H) : Bool × Connections O H :=
  let (ok, m) := DBConnection.construct (address .local_) (reply .local_) m
  if !ok then (false, m) else
    let (ok, m) := DBConnection.construct (address .hosted_) (reply .hosted_) m
    if !ok then (false, DBConnection.destruct (address .local_) m) else (true, m)

end SyncLayer.Model
