import PipelineTunnel.Server.AuthGate

/-!
# The server and its sessions

`server/server.cpp`: connections are accepted, their first nine bytes are collected, and
`finish_handshake` gives them to a session or makes a session for them. `handle_reconnect`
of one session hands its connection to another through `g_session_registry`.

## Implementation notes

The system uses the number of a descriptor again after it was closed; here a connection
keeps its number for ever, so that a number says which connection it is. The first read of
`accept` is an event like the reads that follow it. A session is alive as long as a handler
or `g_paused_sessions` refers to it; when the last reference goes is decided by the event.
The handler that `finish_handshake` installs may read at any time, also after the session
installed another one.
-/

namespace PipelineTunnel.Registry

open Protocol Lifecycle

/-- What all sessions of a server share. -/
structure Config where
  password : Bytes
  hexSha256 : Bytes → Bytes
  hasModule : Bytes → Bool
  extraOutputs : List (Bytes × Bytes) → Nat

/-- What a new session draws: its id, its challenge, and the answers of the system. -/
structure Draw where
  sessionId : UInt64
  challenge : Bytes
  nextConnId : Nat → UInt8
  connect : Nat → Bytes → Bytes → Connect

def Config.world (cfg : Config) (draw : Draw) : World where
  sessionId := draw.sessionId
  password := cfg.password
  challenge1 := draw.challenge
  hexSha256 := cfg.hexSha256
  hasModule := cfg.hasModule
  extraOutputs := cfg.extraOutputs
  nextConnId := draw.nextConnId
  connect := draw.connect

/-- A session with the connection it was made for. `fed` keeps the bytes that `on_data` got
from this connection; no handler reads it. -/
structure Entry where
  world : World
  origin : Nat
  session : Session
  fed : Bytes := []
  alive : Bool := true

structure PendingHandshake where
  fd : Nat
  buf : Bytes := []
deriving DecidableEq, Repr

/-- `next` is the number of the next connection; a session never leaves the list, and the
registry refers to it by its place. -/
structure Server where
  next : Nat := 0
  sessions : List Entry := []
  registry : UInt64 → Option Nat := fun _ => none
  pendingHandshakes : List PendingHandshake := []

namespace Server

/-- `find` and `lock` on `g_session_registry`. -/
def lock (sv : Server) (sid : UInt64) : Option (Nat × Entry) :=
  match sv.registry sid with
  | none => none
  | some i =>
      match sv.sessions[i]? with
      | none => none
      | some e => if e.alive then some (i, e) else none

def put (sv : Server) (i : Nat) (e : Entry) : Server :=
  { sv with sessions := sv.sessions.set i e }

/-- Whether `reconnect` of the session with this id returns true. -/
def reconnects (sv : Server) (sid : UInt64) : Bool :=
  match sv.lock sid with
  | none => false
  | some (_, e) => e.session.paused

/-- `handle_reconnect` gave the connection away: the other session takes it. -/
def handOver (sv : Server) (fd : Nat) (sid : UInt64) : Server :=
  match sv.lock sid with
  | none => sv
  | some (j, old) => sv.put j { old with session := reconnect old.world old.session fd }

/-- `on_data` of a session of this server, with bytes read from `fd`. -/
def onData (sv : Server) (i : Nat) (e : Entry) (fd : Nat) (data : Bytes) : Server :=
  let s := Lifecycle.onData e.world sv.reconnects e.session data
  let fed := if fd = e.origin then e.fed ++ data else e.fed
  let sv := sv.put i { e with session := s, fed := fed }
  match s.clientFd, s.handedTo with
  | none, some sid => sv.handOver fd sid
  | _, _ => sv

end Server

/-- A session as `finish_handshake` makes it, with the challenge under way. -/
def newEntry (cfg : Config) (fd : Nat) (draw : Draw) : Entry where
  world := cfg.world draw
  origin := fd
  session := (Session.init fd).sendPacket ⟨MSG_AUTH_CHALLENGE, draw.challenge⟩

def Server.register (sv : Server) (sid : UInt64) (e : Entry) : Server :=
  { sv with
    sessions := sv.sessions ++ [e]
    registry := Function.update sv.registry sid (some sv.sessions.length) }

/-- The session that the nine bytes of a data connection name. -/
def Server.named (sv : Server) (buf : Bytes) : Option (Nat × Entry) :=
  if buf.length = 9 then sv.lock (readU64 buf) else none

def outputIdx (buf : Bytes) : UInt8 := buf.getD 8 0

def finishHandshake (cfg : Config) (sv : Server) (fd : Nat) (buf : Bytes) (draw : Draw) :
    Server :=
  match sv.named buf with
  | some (i, e) =>
      sv.put i { e with
        session := e.session.setCore
          (addDataConnection e.world e.session.core (outputIdx buf) fd) }
  | none =>
      let e := newEntry cfg fd draw
      let sv' := sv.register draw.sessionId e
      if buf = [] then sv' else sv'.onData sv.sessions.length e fd buf

/-! ## The events -/

inductive Event where
  | accept
  /-- Bytes of a handshake that is not complete yet. -/
  | handshakeRead (i : Nat) (data : Bytes) (draw : Draw)
  /-- The connection ends, or stalls behind its first byte for too long. -/
  | handshakeClosed (i : Nat)
  /-- Nothing came for `HANDSHAKE_SHORT_TIMEOUT_MS`. -/
  | handshakeTimeout (i : Nat) (draw : Draw)
  /-- The handler that `finish_handshake` installs reads from the client. -/
  | clientRead (i : Nat) (data : Bytes)
  | session (i : Nat) (e : Lifecycle.Event)
  /-- The destructor of a session. -/
  | expire (i : Nat)

/-- What happens to a session without the server. -/
def isInternal : Lifecycle.Event → Bool
  | .onData _ _ => false
  | .addDataConnection _ _ => false
  | .reconnect _ => false
  | _ => true

def Server.step (cfg : Config) (sv : Server) : Event → Option Server
  | .accept =>
      some { sv with
        next := sv.next + 1
        pendingHandshakes := sv.pendingHandshakes ++ [{ fd := sv.next }] }
  | .handshakeRead i data draw =>
      match sv.pendingHandshakes[i]? with
      | none => none
      | some ph =>
          let buf := ph.buf ++ data
          if data = [] ∨ buf.length > 9 then none
          else if buf.length = 9 then
            some (finishHandshake cfg
              { sv with pendingHandshakes := sv.pendingHandshakes.eraseIdx i } ph.fd buf draw)
          else
            some { sv with
              pendingHandshakes := sv.pendingHandshakes.set i { ph with buf := buf } }
  | .handshakeClosed i => some { sv with pendingHandshakes := sv.pendingHandshakes.eraseIdx i }
  | .handshakeTimeout i draw =>
      match sv.pendingHandshakes[i]? with
      | none => none
      | some ph =>
          if ph.buf = [] then
            some (finishHandshake cfg
              { sv with pendingHandshakes := sv.pendingHandshakes.eraseIdx i } ph.fd [] draw)
          else none
  | .clientRead i data =>
      match sv.sessions[i]? with
      | none => none
      | some e =>
          match e.alive, e.session.clientFd with
          | true, some fd => some (sv.onData i e fd data)
          | _, _ => none
  | .session i ev =>
      match sv.sessions[i]? with
      | none => none
      | some e =>
          if e.alive ∧ isInternal ev then
            (e.session.step e.world ev).map fun s => sv.put i { e with session := s }
          else none
  | .expire i =>
      match sv.sessions[i]? with
      | none => none
      | some e =>
          some { sv.put i { e with alive := false } with
            registry := Function.update sv.registry e.world.sessionId none }

end PipelineTunnel.Registry
