import ChatRelay.Server.Schedule
import ChatRelay.Server.Settings

/-!
# Services

A service is a system behind a listener. It takes connections while it listens, gives each a worker
with the next session id, and counts it until the worker has ended. A shutdown tells the subscribers'
workers to go; publishers finish on their own.
-/

namespace ChatRelay.Server

open Transport

/-- A system, its settings, whether it takes connections, and whether clients get through to its
host. -/
structure Service where
  settings : Settings := {}
  system : System := {}
  listening : Bool := true
  reachable : Bool := true

namespace Service

/-- A service with no connection yet. -/
def start (settings : Settings) : Service :=
  { settings, system := { hub := { dequeueTimeout := settings.dequeueTimeout } } }

/-- Take a connection, if a client gets through; the answer is its worker. -/
def accept (s : Service) : Service × Except Fault Nat :=
  if s.listening && s.reachable then
    ({ s with system := s.system.act (.connect (fun _ ↦ none) true) }, .ok s.system.workers.length)
  else (s, .error .connectionRefused)

/-- Tell the subscribers' workers to go. -/
def shutdown (s : Service) : Service :=
  { s with system := s.system.act (.setClosing true) }

/-- Take no more connections, and tell the subscribers' workers to go. -/
def stop (s : Service) : Service :=
  { s.shutdown with listening := false }

/-- What the service has counted. -/
def counters (s : Service) : Counters :=
  s.system.hub.counters

/-- A service can listen at a port only while nobody else does. -/
def listen (settings : Settings) (taken : Bool) : Except Fault Service :=
  if taken then .error .addressInUse else .ok (start settings)

end Service

end ChatRelay.Server
