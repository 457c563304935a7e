import ResourceAgent.Ports.ClientMoves
import ResourceAgent.Ports.Reservation
import ResourceAgent.Verified.Runs

/-!
# Agents connected by TCP

Any number of agents, each with its client side and its server side, and the
connections between them.  `Wires` is what the kernels keep: every connection
ever made, and for each agent the descriptors that are open, each leading to one
end of one connection.  A descriptor number that was closed can be handed out
again.

A step is one handler of one agent run to completion, or something the network
does: a connection is accepted, or it fails.  The effects a handler returns act
on the wires in order (`perform`).  `Enabled` says when the kernel can report an
event: a line is delivered whole, in order and only on an open descriptor; the
end of a connection is seen when the other side has closed it or it has failed,
after the lines that were on their way.

An agent can ask itself for a resource; then both ends of a connection are its
own.

The fields `jobId`, `req`, `received` and `served` of a connection are not seen by
any handler.  They record for which request it was opened, which RESERVE was read
from it, and which request `record_granted` last filed under its descriptor.
-/

namespace ResourceAgent.Ports.Network

open ResourceAgent.Ports.HashTable
open ResourceAgent.Ports.Records
open ResourceAgent.Ports.Wire
open ResourceAgent.Ports.Client
open ResourceAgent.Ports.Reservation
open ResourceAgent.Verified.CText

/-! ## Connections -/

/-- The two ends of a connection: the one that called `connect`, and the one
that is returned by `accept4`. -/
inductive Side where
  | client
  | server
  deriving DecidableEq, Repr

structure Conn (A : Type) where
  client : A
  clientFd : Int
  server : A
  jobId : Int
  req : PendingResource
  /-- the descriptor of the accepted end and the address `getpeername` gives for
  it; `none` until it is accepted -/
  serverEnd : Option (Int × Addr)
  /-- `EPOLLOUT` has been asked for and not been reported -/
  armed : Bool
  toServer : List Text
  toClient : List Text
  broken : Bool
  received : Option (Resource × Request)
  served : Option (Resource × Request)

namespace Conn

variable {A : Type}

/-- A connection just made by `connect()`. -/
def opened (client : A) (clientFd : Int) (server : A) (jobId : Int) (req : PendingResource) :
    Conn A where
  client := client
  clientFd := clientFd
  server := server
  jobId := jobId
  req := req
  serverEnd := none
  armed := false
  toServer := []
  toClient := []
  broken := false
  received := none
  served := none

/-- The agent at one end. -/
def agent (c : Conn A) : Side → A
  | .client => c.client
  | .server => c.server

/-- The descriptor of one end. -/
def fd (c : Conn A) : Side → Option Int
  | .client => some c.clientFd
  | .server => c.serverEnd.map Prod.fst

/-- The lines one end has not read yet. -/
def inbox (c : Conn A) : Side → List Text
  | .client => c.toClient
  | .server => c.toServer

/-- A `send` from one end; nothing arrives through a broken connection. -/
def push (side : Side) (line : Text) (c : Conn A) : Conn A :=
  if c.broken then c
  else
    match side with
    | .client => { c with toServer := c.toServer ++ [line] }
    | .server => { c with toClient := c.toClient ++ [line] }

/-- The RESERVE in a line the server end reads, as the request it allocates. -/
def reserveRead (c : Conn A) (s : ServerState) : Option (Resource × Request) :=
  match c.toServer.head?.map parseRemote, c.serverEnd with
  | some (.reserve jobId resource amount), some (fd, _) =>
      some (Resource.ofName resource, makeRequest s jobId fd amount)
  | _, _ => c.received

/-- One end takes the next line; `s` is the server side of its agent. -/
def read (side : Side) (s : ServerState) (c : Conn A) : Conn A :=
  match side with
  | .client => { c with toClient := c.toClient.tail }
  | .server => { c with toServer := c.toServer.tail, received := c.reserveRead s }

/-- The connection fails: of the lines on their way, only the first ones are
still delivered. -/
def fail (keepServer keepClient : Nat) (c : Conn A) : Conn A :=
  { c with
    broken := true
    toServer := c.toServer.take keepServer
    toClient := c.toClient.take keepClient }

/-- A reply of `getpeername` on the server end, where the peer has address
`addr`. -/
def Answers (c : Conn A) (addr : Addr) (reply : Option Addr) : Prop :=
  reply = some addr ∨ (c.broken = true ∧ reply = none)

instance (c : Conn A) (addr : Addr) (reply : Option Addr) : Decidable (c.Answers addr reply) :=
  inferInstanceAs (Decidable (reply = some addr ∨ (c.broken = true ∧ reply = none)))

end Conn

/-! ## The kernels -/

structure Wires (A : Type) where
  conns : List (Conn A)
  files : A → Int → Option (Nat × Side)

namespace Wires

variable {A : Type}

def modify (w : Wires A) (i : Nat) (f : Conn A → Conn A) : Wires A :=
  { w with conns := w.conns.modify i f }

variable [DecidableEq A]

def setFile (w : Wires A) (a : A) (fd : Int) (x : Option (Nat × Side)) : Wires A :=
  { w with files := fun a' fd' => if a' = a ∧ fd' = fd then x else w.files a' fd' }

/-- `accept4` returns the server end of connection `i`. -/
def accept (w : Wires A) (i fd : Nat) (addr : Addr) : Wires A :=
  match w.conns[i]? with
  | none => w
  | some c =>
      (w.modify i fun c => { c with serverEnd := some ((fd : Int), addr) }).setFile c.server fd
        (some (i, .server))

/-- What an effect of agent `a` does to the wires.  `route` tells which agent
listens at a destination. -/
def perform (route : Text → Int → A) (a : A) (w : Wires A) : Effect → Wires A
  | .send fd line =>
      match w.files a fd with
      | some (i, side) => w.modify i (Conn.push side line)
      | none => w
  | .close fd => w.setFile a fd none
  | .connect fd jobId req =>
      { w with
        conns := w.conns ++ [Conn.opened a fd (route req.destIp req.destPort) jobId req]
      }.setFile a fd (some (w.conns.length, .client))
  | .epollAdd fd =>
      match w.files a fd with
      | some (i, .client) => w.modify i fun c => { c with armed := true }
      | _ => w
  | .recorded r req =>
      match w.files a req.originSocket with
      | some (i, .server) => w.modify i fun c => { c with served := some (r, req) }
      | _ => w
  | _ => w

/-- Effects one after the other. -/
def performAll (route : Text → Int → A) (a : A) (w : Wires A) (out : List Effect) : Wires A :=
  out.foldl (perform route a) w

/-- One end of connection `i` is open. -/
def IsOpen (w : Wires A) (i : Nat) (c : Conn A) (side : Side) : Prop :=
  ∃ fd ∈ c.fd side, w.files (c.agent side) fd = some (i, side)

/-- One end of connection `i` was open once and is closed now. -/
def IsClosed (w : Wires A) (i : Nat) (c : Conn A) (side : Side) : Prop :=
  ∃ fd ∈ c.fd side, w.files (c.agent side) fd ≠ some (i, side)

instance (w : Wires A) (i : Nat) (c : Conn A) (side : Side) : Decidable (w.IsOpen i c side) :=
  inferInstanceAs (Decidable (∃ fd ∈ c.fd side, w.files (c.agent side) fd = some (i, side)))

instance (w : Wires A) (i : Nat) (c : Conn A) (side : Side) : Decidable (w.IsClosed i c side) :=
  inferInstanceAs (Decidable (∃ fd ∈ c.fd side, w.files (c.agent side) fd ≠ some (i, side)))

/-- The descriptor a dial gets is not in use. -/
def Free (w : Wires A) (a : A) : Dial → Prop
  | .noSocket => True
  | .connectFails fd => w.files a fd = none
  | .epollFails fd => w.files a fd = none
  | .connected fd => w.files a fd = none

instance (w : Wires A) (a : A) : ∀ dial, Decidable (w.Free a dial)
  | .noSocket => inferInstanceAs (Decidable True)
  | .connectFails fd => inferInstanceAs (Decidable (w.files a fd = none))
  | .epollFails fd => inferInstanceAs (Decidable (w.files a fd = none))
  | .connected fd => inferInstanceAs (Decidable (w.files a fd = none))

/-- What `getpeername` answers to agent `a`: the peer's address on an accepted
connection, and possibly an error once the connection has failed. -/
def Named (w : Wires A) (a : A) (names : Int → Option Addr) : Prop :=
  ∀ i < w.conns.length, ∀ c ∈ w.conns[i]?, ∀ x ∈ c.serverEnd, c.server = a →
    w.files a x.1 = some (i, .server) → c.Answers x.2 (names x.1)

instance (w : Wires A) (a : A) (names : Int → Option Addr) : Decidable (w.Named a names) :=
  inferInstanceAs (Decidable (∀ i < w.conns.length, ∀ c ∈ w.conns[i]?, ∀ x ∈ c.serverEnd,
    c.server = a → w.files a x.1 = some (i, .server) → c.Answers x.2 (names x.1)))

/-- No accepted connection of agent `b` that is still open has this peer. -/
def Unused (w : Wires A) (b : A) (addr : Addr) : Prop :=
  ∀ i < w.conns.length, ∀ c ∈ w.conns[i]?, ∀ x ∈ c.serverEnd, c.server = b →
    w.files b x.1 = some (i, .server) → x.2 ≠ addr

instance (w : Wires A) (b : A) (addr : Addr) : Decidable (w.Unused b addr) :=
  inferInstanceAs (Decidable (∀ i < w.conns.length, ∀ c ∈ w.conns[i]?, ∀ x ∈ c.serverEnd,
    c.server = b → w.files b x.1 = some (i, .server) → x.2 ≠ addr))

end Wires

/-! ## The whole system -/

/-- An agent, and the lines it has sent to its scheduler. -/
structure Agent where
  client : ClientState
  server : ServerState
  told : List (Instruction × Text)

structure Net (A : Type) where
  agents : A → Agent
  wires : Wires A

/-- The agents have started with their capacities; there is no connection. -/
def Net.init {A : Type} (capacity : A → Resource → Int) : Net A where
  agents a := ⟨.init, .init (capacity a), []⟩
  wires := ⟨[], fun _ _ => none⟩

inductive NetEvent (A : Type) where
  /-- `erlang_to_C` on a line of the agent's scheduler -/
  | erlang (a : A) (instruction : Text) (timer : Int) (nodes : Table nodeCallbacks) (dial : Dial)
  /-- `check_ourjob_timeouts` -/
  | sweep (a : A) (now : Int)
  /-- `connect_client`: connection `i` is accepted as `fd` -/
  | accept (i fd : Nat) (addr : Addr)
  /-- `send_request` on the client end of connection `i` -/
  | writable (i : Nat)
  /-- one turn of the loop of `recive_message_from_remote`: the next line of
  connection `i` is read at one end -/
  | line (i : Nat) (side : Side) (now : Int) (dial : Dial) (names : Int → Option Addr)
  /-- the disconnect branch of `recive_message_from_remote` at one end of
  connection `i` -/
  | disconnect (i : Nat) (side : Side) (names : Int → Option Addr)
  /-- connection `i` fails -/
  | fail (i keepServer keepClient : Nat)

/-- What the scheduler is told by some effects. -/
def toldBy (out : List Effect) : List (Instruction × Text) :=
  out.filterMap fun
    | .toErlang instruction jobId => some (instruction, jobId)
    | _ => none

/-- `getpeername` asked for a descriptor, whatever the grant. -/
def asPeers (names : Int → Option Addr) : Peers := fun _ _ fd => names fd

section

variable {A : Type} [DecidableEq A] (route : Text → Int → A)

/-- A handler of the client side of `a` has returned. -/
def Net.actClient (net : Net A) (a : A) (r : ClientState × List Effect) : Net A where
  agents x :=
    if x = a then
      { net.agents a with client := r.1, told := (net.agents a).told ++ toldBy r.2 }
    else net.agents x
  wires := net.wires.performAll route a r.2

/-- A handler of the server side of `a` has returned. -/
def Net.actServer (net : Net A) (a : A) (r : ServerState × List Effect) : Net A where
  agents x := if x = a then { net.agents a with server := r.1 } else net.agents x
  wires := net.wires.performAll route a r.2

/-- One step. -/
def netStep (net : Net A) : NetEvent A → Net A
  | .erlang a instruction timer nodes dial =>
      net.actClient route a
        (clientStep (net.agents a).client (.erlang instruction timer nodes dial))
  | .sweep a now => net.actClient route a (clientStep (net.agents a).client (.sweep now))
  | .accept i fd addr => { net with wires := net.wires.accept i fd addr }
  | .writable i =>
      match net.wires.conns[i]? with
      | none => net
      | some c =>
          { net with wires := net.wires.modify i fun c => { c with armed := false } }.actClient
            route c.client (clientStep (net.agents c.client).client (.sendRequest c.clientFd))
  | .line i side now dial names =>
      match net.wires.conns[i]? with
      | none => net
      | some c =>
          match c.fd side, c.inbox side with
          | some fd, text :: _ =>
              let a := c.agent side
              let read := { net with
                wires := net.wires.modify i (Conn.read side (net.agents a).server) }
              let served := read.actServer route a
                (serverMessage (asPeers names) (net.agents a).server fd text)
              served.actClient route a (clientStep (net.agents a).client (.line fd text now dial))
          | _, _ => net
  | .disconnect i side names =>
      match net.wires.conns[i]? with
      | none => net
      | some c =>
          match c.fd side with
          | some fd =>
              let a := c.agent side
              let released := net.actServer route a
                (releaseClientByFd (asPeers names) (net.agents a).server fd)
              let rejected := released.actClient route a
                (clientStep (net.agents a).client (.disconnect fd))
              { rejected with wires := rejected.wires.perform route a (.close fd) }
          | none => net
  | .fail i keepServer keepClient =>
      { net with wires := net.wires.modify i (Conn.fail keepServer keepClient) }

end

section

variable {A : Type} [DecidableEq A]

/-- What the kernels and the network can do next. -/
def Enabled (net : Net A) : NetEvent A → Prop
  | .erlang a _ _ _ dial => net.wires.Free a dial
  | .sweep _ _ => True
  | .accept i fd addr =>
      ∃ c ∈ net.wires.conns[i]?, c.serverEnd = none ∧ net.wires.files c.server fd = none ∧
        addr.2 ≠ 0 ∧ net.wires.Unused c.server addr
  | .writable i => ∃ c ∈ net.wires.conns[i]?, c.armed = true ∧ net.wires.IsOpen i c .client
  | .line i side _ dial names =>
      ∃ c ∈ net.wires.conns[i]?, net.wires.IsOpen i c side ∧ c.inbox side ≠ [] ∧
        net.wires.Free (c.agent side) dial ∧ net.wires.Named (c.agent side) names
  | .disconnect i side names =>
      ∃ c ∈ net.wires.conns[i]?, net.wires.IsOpen i c side ∧ c.inbox side = [] ∧
        (c.broken = true ∨
          net.wires.IsClosed i c (match side with | .client => .server | .server => .client)) ∧
        net.wires.Named (c.agent side) names
  | .fail i _ _ => i < net.wires.conns.length

instance (net : Net A) : ∀ e, Decidable (Enabled net e)
  | .erlang a _ _ _ dial => inferInstanceAs (Decidable (net.wires.Free a dial))
  | .sweep _ _ => inferInstanceAs (Decidable True)
  | .accept i fd addr =>
      inferInstanceAs (Decidable (∃ c ∈ net.wires.conns[i]?, c.serverEnd = none ∧
        net.wires.files c.server fd = none ∧ addr.2 ≠ 0 ∧ net.wires.Unused c.server addr))
  | .writable i =>
      inferInstanceAs (Decidable (∃ c ∈ net.wires.conns[i]?, c.armed = true ∧
        net.wires.IsOpen i c .client))
  | .line i side _ dial names =>
      inferInstanceAs (Decidable (∃ c ∈ net.wires.conns[i]?, net.wires.IsOpen i c side ∧
        c.inbox side ≠ [] ∧ net.wires.Free (c.agent side) dial ∧
        net.wires.Named (c.agent side) names))
  | .disconnect i side names =>
      inferInstanceAs (Decidable (∃ c ∈ net.wires.conns[i]?, net.wires.IsOpen i c side ∧
        c.inbox side = [] ∧ (c.broken = true ∨
          net.wires.IsClosed i c (match side with | .client => .server | .server => .client)) ∧
        net.wires.Named (c.agent side) names))
  | .fail i _ _ => inferInstanceAs (Decidable (i < net.wires.conns.length))

end

end ResourceAgent.Ports.Network
