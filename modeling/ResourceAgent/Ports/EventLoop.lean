import ResourceAgent.Ports.ClientMoves
import ResourceAgent.Ports.Framing
import ResourceAgent.Ports.Reservation

/-!
# The event loop of one agent

`event_loop` of `agent/agent.c` with the handlers it dispatches to in
`agent/loopfunc.c`, the descriptors of the process, and the line buffers indexed
by descriptor.  Any number of workers run it; a worker is between events, or in
the middle of a handler:

* `message_from_erlang` and `recive_message_from_remote` read a line and handle
  it, until `read_until_newline` returns something else than 1;
* their disconnect branches close the connection, and then clear its line buffer;
* the second loop of `check_ourjob_timeouts` ends the collected jobs one by one.

One turn of a loop is one step, and a disconnect branch is two: up to its `close`, and
from its `clear_connection_buffer` on.

`Kernel` is what the operating system keeps about descriptors.  Every connection
gets a number of its own when it is opened, so that two connections that used the
same descriptor one after the other can be told apart; a descriptor that was
closed can be handed out again.

`grantedOn` and `heard` are not seen by any handler.  They record on which connection
each element of a job's `granted_reqs` was granted (in the order of that list), and
which bytes were received on each connection.
-/

namespace ResourceAgent.Ports.EventLoop

open ResourceAgent.Ports.HashTable
open ResourceAgent.Ports.Records
open ResourceAgent.Ports.Wire
open ResourceAgent.Ports.Client
open ResourceAgent.Ports.Reservation
open ResourceAgent.Ports.Framing
open ResourceAgent.Verified.CText

/-! ## Descriptors -/

structure Kernel where
  /-- the connection an open descriptor leads to -/
  files : Int → Option Nat
  /-- the connection last opened on a descriptor -/
  last : Int → Option Nat
  /-- the descriptors registered with `epoll` -/
  monitored : Int → Bool
  /-- how many connections were opened so far -/
  opened : Nat

namespace Kernel

def init : Kernel := ⟨fun _ => none, fun _ => none, fun _ => false, 0⟩

/-- `accept4` or `socket` returns `fd` for a new connection. -/
def openFile (k : Kernel) (fd : Int) : Kernel where
  files := Function.update k.files fd (some k.opened)
  last := Function.update k.last fd (some k.opened)
  monitored := k.monitored
  opened := k.opened + 1

/-- `close(fd)`; `epoll` forgets the descriptor. -/
def closeFile (k : Kernel) (fd : Int) : Kernel :=
  { k with
    files := Function.update k.files fd none
    monitored := Function.update k.monitored fd false }

def monitor (k : Kernel) (fd : Int) (registered : Bool) : Kernel :=
  { k with monitored := Function.update k.monitored fd registered }

section

variable (k : Kernel) (fd : Int)

@[simp] theorem files_openFile_self : (k.openFile fd).files fd = some k.opened :=
  Function.update_self ..

@[simp] theorem last_openFile_self : (k.openFile fd).last fd = some k.opened :=
  Function.update_self ..

@[simp] theorem files_closeFile_self : (k.closeFile fd).files fd = none :=
  Function.update_self ..

variable {fd} {fd' : Int}

theorem files_openFile_of_ne (h : fd' ≠ fd) : (k.openFile fd).files fd' = k.files fd' :=
  Function.update_of_ne h ..

theorem last_openFile_of_ne (h : fd' ≠ fd) : (k.openFile fd).last fd' = k.last fd' :=
  Function.update_of_ne h ..

theorem files_closeFile_of_ne (h : fd' ≠ fd) : (k.closeFile fd).files fd' = k.files fd' :=
  Function.update_of_ne h ..

end

/-- What an effect does to the descriptors. -/
def perform (k : Kernel) : Effect → Kernel
  | .close fd => k.closeFile fd
  | .connect fd _ _ => k.openFile fd
  | .epollAdd fd => k.monitor fd true
  | .epollDel fd => k.monitor fd false
  | _ => k

/-- Effects one after the other. -/
def performAll (k : Kernel) (out : List Effect) : Kernel := out.foldl perform k

/-- The connection an effect acts on. -/
def target (k : Kernel) : Effect → Option Nat
  | .send fd _ => k.files fd
  | .close fd => k.files fd
  | _ => none

/-- Effects one after the other, each with the connection it acts on. -/
def resolve (k : Kernel) : List Effect → List (Option Nat × Effect)
  | [] => []
  | e :: out => (k.target e, e) :: resolve (k.perform e) out

/-- The descriptor a dial gets is not in use. -/
def Free (k : Kernel) : Dial → Prop
  | .noSocket => True
  | .connectFails fd => k.files fd = none
  | .epollFails fd => k.files fd = none
  | .connected fd => k.files fd = none

instance (k : Kernel) : ∀ dial, Decidable (k.Free dial)
  | .noSocket => inferInstanceAs (Decidable True)
  | .connectFails fd => inferInstanceAs (Decidable (k.files fd = none))
  | .epollFails fd => inferInstanceAs (Decidable (k.files fd = none))
  | .connected fd => inferInstanceAs (Decidable (k.files fd = none))

end Kernel

/-! ## Workers -/

/-- Where a worker is. -/
inductive Handler where
  | idle
  /-- in the loop of `message_from_erlang(fd, ..)` -/
  | erlang (fd : Int)
  /-- in the loop of `recive_message_from_remote(fd, ..)` -/
  | remote (fd : Int)
  /-- `message_from_erlang` has closed `erlangfd` -/
  | leavingErlang
  /-- `recive_message_from_remote(fd, ..)` has closed `fd` -/
  | leaving (fd : Int)
  /-- in the second loop of `check_ourjob_timeouts`, with these ids left -/
  | sweep (ids : List Int)
  deriving DecidableEq, Repr

structure Process (W : Type) where
  client : ClientState
  server : ServerState
  connections : Buffers
  erlangfd : Int
  kernel : Kernel
  handler : W → Handler
  grantedOn : Nat → List (Option Nat)
  heard : Nat → Text

/-- The agent after start-up. -/
def Process.init {W : Type} (capacity : Resource → Int) : Process W where
  client := .init
  server := .init capacity
  connections _ := .fresh
  erlangfd := -1
  kernel := .init
  handler _ := .idle
  grantedOn _ := []
  heard _ := []

/-- How `accept4` and the `epoll_ctl` after it end. -/
inductive Accepted where
  /-- `accept4` fails, or finds no connection (`EAGAIN`) -/
  | refused
  | epollFails (fd : Nat)
  | added (fd : Nat)
  deriving DecidableEq, Repr

/-- What a turn of a loop gets from the outside. -/
structure Env where
  recv : Recv
  now : Int
  nodes : Table nodeCallbacks
  dial : Dial
  names : Int → Option Addr

inductive LoopEvent (W : Type) where
  /-- A: `socket_erlang` is ready -/
  | connectErlang (w : W) (accepted : Accepted)
  /-- B: `socket_server` is ready -/
  | connectClient (w : W) (accepted : Accepted)
  /-- D: the timeout timer has fired -/
  | tick (w : W) (now : Int)
  /-- F or H: `fd` is readable -/
  | readable (w : W) (fd : Int)
  /-- G, or F: `fd` is writable -/
  | writable (w : W) (fd : Int)
  /-- the next step of the handler the worker is in -/
  | turn (w : W) (env : Env)

section

variable {W : Type} [DecidableEq W]

namespace Process

def setHandler (p : Process W) (w : W) (h : Handler) : Process W :=
  { p with handler := Function.update p.handler w h }

/-- `accept4` and `epoll_ctl` ADD. -/
def accept (p : Process W) : Accepted → Process W
  | .refused => p
  | .epollFails fd => { p with kernel := (p.kernel.openFile fd).closeFile fd }
  | .added fd => { p with kernel := (p.kernel.openFile fd).monitor fd true }

omit [DecidableEq W] in
/-- Only the descriptors change. -/
theorem accept_eq (p : Process W) (accepted : Accepted) :
    ∃ kernel, p.accept accepted = { p with kernel := kernel } := by
  cases accepted <;> exact ⟨_, rfl⟩

/-- The descriptor `connect_erlang` returns. -/
def newErlangfd : Accepted → Int
  | .added fd => fd
  | _ => -1

/-- `recv` gives what the environment says; the state of the kernel is what was
received. -/
def receive (env : Env) (space : Nat) (_ : Text) : Recv × Text :=
  match env.recv with
  | .data bytes => (.data (bytes.take space), bytes.take space)
  | r => (r, [])

/-- `read_until_newline(fd, line)` in one turn. -/
def read (p : Process W) (fd : Int) (env : Env) : Text × Buffers × Reading :=
  readUntilNewline (receive env) [] p.connections fd

/-- The buffers after a read, and the bytes received added to what was heard on
the connection. -/
def hear (p : Process W) (fd : Int) (env : Env) : Process W :=
  { p with
    connections := (p.read fd env).2.1
    heard :=
      match p.kernel.files fd with
      | some c => Function.update p.heard c (p.heard c ++ (p.read fd env).1)
      | none => p.heard }

/-- A handler of the client side has returned. -/
def actClient (p : Process W) (r : ClientState × List Effect) : Process W :=
  { p with client := r.1, kernel := p.kernel.performAll r.2 }

/-- A handler of the server side has returned. -/
def actServer (p : Process W) (r : ServerState × List Effect) : Process W :=
  { p with server := r.1, kernel := p.kernel.performAll r.2 }

/-- The job that a line read from `fd` moves a request of, if it is a GRANTED for
the job waiting there. -/
def granting (s : ClientState) (fd : Int) (text : Text) : Option Nat :=
  match parseRemote text, s.owner fd with
  | .granted jobId, some job =>
      if job.jobId = jobId ∧ job.nextReq ≠ [] then some job.addr else none
  | _, _ => none

/-- The connection of a grant is noted. -/
def noteGrant (p : Process W) (fd : Int) (text : Text) : Process W :=
  match granting p.client fd text with
  | some addr =>
      { p with
        grantedOn := Function.update p.grantedOn addr (p.kernel.files fd :: p.grantedOn addr) }
  | none => p

omit [DecidableEq W] in
/-- Noting a grant changes nothing else. -/
theorem noteGrant_eq (p : Process W) (fd : Int) (text : Text) :
    ∃ grantedOn, p.noteGrant fd text = { p with grantedOn := grantedOn } := by
  unfold noteGrant
  cases granting p.client fd text with
  | none => exact ⟨p.grantedOn, rfl⟩
  | some addr => exact ⟨_, rfl⟩

end Process

/-- `getpeername` asked for a descriptor. -/
def Env.peers (env : Env) : Peers := fun _ _ fd => env.names fd

/-- What `client_to_myserver(fd, text)` does. -/
def remoteLine (p : Process W) (fd : Int) (text : Text) (env : Env) : List Effect :=
  (serverMessage env.peers p.server fd text).2 ++
    (clientStep p.client (.line fd text env.now env.dial)).2

/-- What the disconnect branch of `recive_message_from_remote` does, up to its `close`. -/
def remoteEnd (p : Process W) (fd : Int) (env : Env) : List Effect :=
  (releaseClientByFd env.peers p.server fd).2 ++
    (clientStep p.client (.disconnect fd)).2 ++ [.epollDel fd, .close fd]

/-- The effects of the next step of a handler. -/
def turnEffects (p : Process W) (w : W) (env : Env) : List Effect :=
  match p.handler w with
  | .idle => []
  | .sweep [] => []
  | .sweep (id :: _) => (timeOut [id] p.client).2
  | .leavingErlang => []
  | .leaving _ => []
  | .erlang fd =>
      match (p.read fd env).2.2 with
      | .line text => (clientStep p.client (.erlang text env.now env.nodes env.dial)).2
      | .more => []
      | .closed => [.epollDel p.erlangfd, .close p.erlangfd]
  | .remote fd =>
      match (p.read fd env).2.2 with
      | .line text => remoteLine p fd text env
      | .more => []
      | .closed => remoteEnd p fd env

/-- The next step of a handler.  Re-arming a descriptor that is not registered has no
effect (`ENOENT`). -/
def turn (p : Process W) (w : W) (env : Env) : Process W :=
  match p.handler w with
  | .idle => p
  | .sweep [] => p.setHandler w .idle
  | .sweep (id :: ids) => (p.actClient (timeOut [id] p.client)).setHandler w (.sweep ids)
  | .erlang fd =>
      let q := p.hear fd env
      match (p.read fd env).2.2 with
      | .line text => q.actClient (clientStep p.client (.erlang text env.now env.nodes env.dial))
      | .more => q.setHandler w .idle
      | .closed =>
          (q.actClient (p.client, [.epollDel p.erlangfd, .close p.erlangfd])).setHandler w
            .leavingErlang
  | .remote fd =>
      let q := p.hear fd env
      match (p.read fd env).2.2 with
      | .line text =>
          ((q.noteGrant fd text).actServer (serverMessage env.peers p.server fd text)).actClient
            (clientStep p.client (.line fd text env.now env.dial))
      | .more => q.setHandler w .idle
      | .closed =>
          let released := q.actServer (releaseClientByFd env.peers p.server fd)
          let rejected := released.actClient (clientStep p.client (.disconnect fd))
          (rejected.actClient (rejected.client, [.epollDel fd, .close fd])).setHandler w
            (.leaving fd)
  | .leavingErlang =>
      { p with
        connections := clearConnectionBuffer p.connections p.erlangfd
        erlangfd := -1 }.setHandler w .idle
  | .leaving fd =>
      { p with connections := clearConnectionBuffer p.connections fd }.setHandler w .idle

/-- The ids the first loop of `check_ourjob_timeouts` collects. -/
def collect (now : Int) (s : ClientState) : List Int :=
  ((s.jobs.filter (expired now)).map LocalJob.jobId).take 256

/-- One step of a worker. -/
def loopStep (p : Process W) : LoopEvent W → Process W
  | .connectErlang _ accepted => { p.accept accepted with erlangfd := Process.newErlangfd accepted }
  | .connectClient _ accepted => p.accept accepted
  | .tick w now => p.setHandler w (.sweep (collect now p.client))
  | .readable w fd => p.setHandler w (if fd = p.erlangfd then .erlang fd else .remote fd)
  | .writable w fd =>
      if fd = p.erlangfd then p.setHandler w (.erlang fd)
      else p.actClient (clientStep p.client (.sendRequest fd))
  | .turn w env => turn p w env

/-- The effects of a step. -/
def stepEffects (p : Process W) : LoopEvent W → List Effect
  | .writable _ fd =>
      if fd = p.erlangfd then [] else (clientStep p.client (.sendRequest fd)).2
  | .turn w env => turnEffects p w env
  | _ => []

/-- The descriptor `accept4` returns is not in use. -/
def Accepted.Free (k : Kernel) : Accepted → Prop
  | .refused => True
  | .epollFails fd => k.files fd = none
  | .added fd => k.files fd = none

instance (k : Kernel) : ∀ accepted, Decidable (Accepted.Free k accepted)
  | .refused => inferInstanceAs (Decidable True)
  | .epollFails fd => inferInstanceAs (Decidable (k.files fd = none))
  | .added fd => inferInstanceAs (Decidable (k.files fd = none))

/-- `recv` on a descriptor that is not open is an error, and otherwise gives
at least one byte or no data. -/
def Receives (k : Kernel) (env : Env) : Handler → Prop
  | .erlang fd => (k.files fd = none → env.recv = .error) ∧ env.recv ≠ .data []
  | .remote fd => (k.files fd = none → env.recv = .error) ∧ env.recv ≠ .data []
  | _ => True

instance (k : Kernel) (env : Env) : ∀ h, Decidable (Receives k env h)
  | .idle => inferInstanceAs (Decidable True)
  | .sweep _ => inferInstanceAs (Decidable True)
  | .leavingErlang => inferInstanceAs (Decidable True)
  | .leaving _ => inferInstanceAs (Decidable True)
  | .erlang fd =>
      inferInstanceAs (Decidable ((k.files fd = none → env.recv = .error) ∧ env.recv ≠ .data []))
  | .remote fd =>
      inferInstanceAs (Decidable ((k.files fd = none → env.recv = .error) ∧ env.recv ≠ .data []))

/-- What can happen next: a worker takes an event when it is done with the last
one, an event is reported for a registered descriptor, and a new connection gets
a free descriptor. -/
def Enabled (p : Process W) : LoopEvent W → Prop
  | .connectErlang w accepted => p.handler w = .idle ∧ accepted.Free p.kernel
  | .connectClient w accepted => p.handler w = .idle ∧ accepted.Free p.kernel
  | .tick w _ => p.handler w = .idle
  | .readable w fd => p.handler w = .idle ∧ p.kernel.monitored fd = true
  | .writable w fd => p.handler w = .idle ∧ p.kernel.monitored fd = true
  | .turn w env => p.kernel.Free env.dial ∧ Receives p.kernel env (p.handler w)

instance (p : Process W) : ∀ e, Decidable (Enabled p e)
  | .connectErlang w accepted =>
      inferInstanceAs (Decidable (p.handler w = .idle ∧ accepted.Free p.kernel))
  | .connectClient w accepted =>
      inferInstanceAs (Decidable (p.handler w = .idle ∧ accepted.Free p.kernel))
  | .tick w _ => inferInstanceAs (Decidable (p.handler w = .idle))
  | .readable w fd =>
      inferInstanceAs (Decidable (p.handler w = .idle ∧ p.kernel.monitored fd = true))
  | .writable w fd =>
      inferInstanceAs (Decidable (p.handler w = .idle ∧ p.kernel.monitored fd = true))
  | .turn w env =>
      inferInstanceAs (Decidable (p.kernel.Free env.dial ∧ Receives p.kernel env (p.handler w)))

end

end ResourceAgent.Ports.EventLoop
