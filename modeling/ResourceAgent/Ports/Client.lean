import ResourceAgent.Ports.Wire

/-!
# The client side: the reservation state machine of the local jobs

`ask_for_next_resource`, `C_to_erlang`, `erlang_to_C` and the client branches of
`client_to_myserver` (`agent/communications.c`), `release_resources` and
`handle_outbound_disconnect` (`agent/utils.c`), `send_request`
(`agent/loopfunc.c`) and `check_ourjob_timeouts` (`agent/timer.c`), each run to
completion.

A job asks its destinations for resources one after the other.  It is owned by
`table_localjobs`; while it waits for an answer, `table_ourjobs` maps the
descriptor of the connection to it.  An index entry holds the address of the
job, and following it is a search for that address among the jobs the owner
table keeps: a freed job is not found.  In the code such an entry leads into freed
memory, or to the job that is stored there next, so what is said of a run about the
program holds of those in which no JOB_REQUEST replaces a job with a request in
flight; `Ports.JobSafety` shows for these that the code never follows such a pointer
and does what is said here.

What the environment decides is an argument: the clock, the contents of
`table_nodes`, and how `socket`, `connect` and `epoll_ctl` end (`Dial`).
-/

namespace ResourceAgent.Ports.Client

open ResourceAgent.Ports.HashTable
open ResourceAgent.Ports.Records
open ResourceAgent.Ports.Wire
open ResourceAgent.Verified.CText

/-! ## State -/

/-- The globals of the client side, and the next address `malloc` returns for a
job. -/
structure ClientState where
  tableLocaljobs : Table localjobCallbacks
  tableOurjobs : Table fdCallbacks
  brk : Nat

namespace ClientState

def init : ClientState := ⟨tablahashCreate _, tablahashCreate _, 0⟩

/-- The jobs in `table_localjobs`. -/
def jobs (s : ClientState) : List LocalJob := s.tableLocaljobs.toList

/-- The entries of `table_ourjobs`. -/
def entries (s : ClientState) : List FdJobEntry := s.tableOurjobs.toList

/-- `tablahash_find(table_localjobs, ..)` by job id. -/
def findJob (s : ClientState) (jobId : Int) : Option LocalJob :=
  tablahashFind s.tableLocaljobs ⟨0, jobId, -1, [], [], 0⟩

/-- `tablahash_find(table_ourjobs, ..)` by descriptor. -/
def findEntry (s : ClientState) (fd : Int) : Option FdJobEntry :=
  tablahashFind s.tableOurjobs ⟨fd, 0⟩

/-- The job at an address. -/
def jobAt (s : ClientState) (addr : Nat) : Option LocalJob :=
  s.jobs.find? fun job => job.addr == addr

/-- The job `found->job` of the index entry of `fd`. -/
def owner (s : ClientState) (fd : Int) : Option LocalJob :=
  (s.findEntry fd).bind fun entry => s.jobAt entry.job

def insertJob (s : ClientState) (job : LocalJob) : ClientState :=
  { s with tableLocaljobs := tablahashInsert s.tableLocaljobs job, brk := s.brk + 1 }

/-- Writing the fields of a stored job through its pointer. -/
def writeJob (s : ClientState) (job : LocalJob) : ClientState :=
  { s with
    tableLocaljobs := update s.tableLocaljobs (fun old => old.addr == job.addr)
      (fun old => { job with addr := old.addr, jobId := old.jobId })
      (fun _ => by simp) }

def removeJob (s : ClientState) (job : LocalJob) : ClientState :=
  { s with tableLocaljobs := tablahashRemove s.tableLocaljobs job }

def insertEntry (s : ClientState) (fd : Int) (addr : Nat) : ClientState :=
  { s with tableOurjobs := tablahashInsert s.tableOurjobs ⟨fd, addr⟩ }

def removeEntry (s : ClientState) (fd : Int) : ClientState :=
  { s with tableOurjobs := tablahashRemove s.tableOurjobs ⟨fd, 0⟩ }

end ClientState

/-! ## Talking to the scheduler -/

/-- The line `C_to_erlang` formats. -/
def erlangLine : Instruction → Text → Text
  | .granted, jobId => "JOB_GRANTED ".toList ++ jobId ++ "\n".toList
  | .rejected, jobId => "JOB_DENIED ".toList ++ jobId ++ "\n".toList
  | .waiting, jobId => "WAITING ".toList ++ jobId ++ "\n".toList
  | .timeout, jobId => "JOB_TIMEOUT ".toList ++ jobId ++ "\n".toList

/-- `C_to_erlang(instruction, job_id)`: a line that does not fit is not sent. -/
def cToErlang (instruction : Instruction) (jobId : Text) : List Effect :=
  if bufferLen ≤ (erlangLine instruction jobId).length then []
  else [.toErlang instruction jobId]

private theorem length_around_le {a b : Text} (ha : a.length ≤ 12) (hb : b.length ≤ 1)
    (jobId : Text) : (a ++ jobId ++ b).length ≤ jobId.length + 13 := by
  rw [List.length_append, List.length_append]
  omega

private theorem length_erlangLine_le (instruction : Instruction) (jobId : Text) :
    (erlangLine instruction jobId).length ≤ jobId.length + 13 := by
  cases instruction <;> exact length_around_le (by decide) (by decide) jobId

theorem cToErlang_short {instruction : Instruction} {jobId : Text} (h : jobId.length ≤ 16) :
    cToErlang instruction jobId = [.toErlang instruction jobId] := by
  have hLine := length_erlangLine_le instruction jobId
  rw [cToErlang, if_neg]
  show ¬ 1024 ≤ _
  omega

theorem cToErlang_itoa {instruction : Instruction} {jobId : Int} (h : IsInt jobId) :
    cToErlang instruction (itoa jobId) = [.toErlang instruction (itoa jobId)] :=
  cToErlang_short (by have := length_itoa_le h; omega)

/-! ## The handlers -/

/-- How the system calls of `ask_for_next_resource` end. -/
inductive Dial where
  /-- `socket()` fails -/
  | noSocket
  /-- `socket()` gives `fd`, `connect()` fails at once -/
  | connectFails (fd : Nat)
  /-- `epoll_ctl` ADD fails -/
  | epollFails (fd : Nat)
  | connected (fd : Nat)
  deriving DecidableEq, Repr

/-- `ask_for_next_resource(job)`. -/
def askForNextResource (dial : Dial) (s : ClientState) (job : LocalJob) :
    ClientState × List Effect :=
  match job.nextReq with
  | [] => (s, cToErlang .granted (itoa job.jobId))
  | req :: _ =>
      match dial with
      | .noSocket => (s, [])
      | .connectFails fd => (s, [.close fd])
      | .epollFails fd =>
          (((s.writeJob { job with originSocket := fd }).insertEntry fd job.addr).removeEntry fd,
            [.connect fd job.jobId req, .close fd])
      | .connected fd =>
          ((s.writeJob { job with originSocket := fd }).insertEntry fd job.addr,
            [.connect fd job.jobId req, .epollAdd fd])

/-- The loop body of `release_resources` for a provider still connected. -/
def releaseProvider (jobId : Int) (granted : PendingResource) : List Effect :=
  if 0 ≤ granted.providerFd then
    [.send granted.providerFd (releaseLine jobId granted.type granted.amount),
      .epollDel granted.providerFd, .close granted.providerFd]
  else []

/-- `release_resources(job)`. -/
def releaseResources (s : ClientState) (job : LocalJob) : ClientState × List Effect :=
  (s.writeJob { job with
      grantedReqs := job.grantedReqs.map fun granted =>
        if 0 ≤ granted.providerFd then { granted with providerFd := -1 } else granted },
    job.grantedReqs.flatMap (releaseProvider job.jobId))

/-- The job with its first ungranted request moved to `granted_reqs`, the
answering connection kept in it, and its timeout clock restarted. -/
def LocalJob.advance (job : LocalJob) (fd now : Int) : LocalJob :=
  match job.nextReq with
  | [] => { job with timer := now }
  | req :: rest =>
      { job with
        nextReq := rest
        grantedReqs := { req with providerFd := fd } :: job.grantedReqs
        timer := now }

/-- `client_to_myserver` on a line that concerns one of our jobs; RESERVE and
RELEASE are for the server side. -/
def clientToMyserver (now : Int) (dial : Dial) (s : ClientState) (fd : Int) :
    RemoteMessage → ClientState × List Effect
  | .granted jobId =>
      match s.owner fd with
      | none => (s, [])
      | some job =>
          if job.jobId = jobId then
            let job' := LocalJob.advance job fd now
            let asked := askForNextResource dial ((s.writeJob job').removeEntry fd) job'
            (asked.1, .epollDel fd :: asked.2)
          else (s, [])
  | .reject =>
      match s.owner fd with
      | none => (s, [])
      | some job =>
          let released := releaseResources (s.removeEntry fd) job
          (released.1.removeJob job, released.2 ++ cToErlang .rejected (itoa job.jobId))
  | _ => (s, [])

/-- `handle_outbound_disconnect(fd)`. -/
def handleOutboundDisconnect (s : ClientState) (fd : Int) : ClientState × List Effect :=
  match s.owner fd with
  | none => (s, [])
  | some job =>
      let released := releaseResources (s.removeEntry fd) job
      (released.1.removeJob job, released.2 ++ cToErlang .rejected (itoa job.jobId))

/-- `send_request(fd)`. -/
def sendRequest (s : ClientState) (fd : Int) : ClientState × List Effect :=
  match s.owner fd with
  | none => (s, [])
  | some job =>
      match job.nextReq with
      | [] => (s, [])
      | req :: _ => (s, [.send fd (reserveLine job.jobId req.type req.amount), .epollMod fd])

/-- Closing the connection of a request still in flight, as JOB_RELEASE and the
timeout sweep do. -/
def tearDown (s : ClientState) (job : LocalJob) : ClientState × List Effect :=
  if 0 ≤ job.originSocket ∧ (s.findEntry job.originSocket).isSome then
    (s.removeEntry job.originSocket, [.epollDel job.originSocket, .close job.originSocket])
  else (s, [])

/-! ## Commands of the scheduler -/

/-- What `erlang_to_C` makes of a line. -/
inductive ErlangCommand where
  /-- `JOB_REQUEST <job> <destination>...` -/
  | jobRequest (jobId : Text) (destinations : List Text)
  | jobRelease (jobId : Text)
  | jobStatus (jobId : Text)
  | getNodes
  | ignored
  deriving DecidableEq, Repr

/-- The token dispatch of `erlang_to_C`. -/
def parseErlang (instruction : Text) : ErlangCommand :=
  match getToken 32 (copyLine instruction) with
  | [] => .ignored
  | command :: args =>
      if command = "JOB_REQUEST".toList then
        match args with
        | [] => .ignored
        | jobId :: destinations => .jobRequest jobId destinations
      else if command = "JOB_RELEASE".toList then
        match args with
        | [] => .ignored
        | jobId :: _ => .jobRelease jobId
      else if command = "JOB_STATUS".toList then
        match args with
        | [] => .ignored
        | jobId :: _ => .jobStatus jobId
      else if command = "GET_NODES".toList then .getNodes
      else .ignored

/-- The pieces of a destination token `@ip:res:amount`. -/
def splitDestination (token : Text) : Option (Text × Text × Text) :=
  let copy := strncpy 255 token
  let p := if copy.head? = some '@' then copy.tail else copy
  (strtok (· == ':') p).bind fun ip =>
    (strtok (· == ':') ip.2).bind fun res =>
      (strtok (· == ' ') res.2).map fun amt => (ip.1, res.1, amt.1)

/-- The loop body of JOB_REQUEST: a destination token as a request, `none` when
it is malformed.  The port is that of the node in `table_nodes`, if known. -/
def parseDestination (nodes : Table nodeCallbacks) (token : Text) : Option PendingResource :=
  (splitDestination token).map fun dest =>
    { type := strncpy 7 dest.2.1
      amount := atoi dest.2.2
      destIp := strncpy 15 dest.1
      destPort := ((tablahashFind nodes ⟨inetAddr dest.1, 0, 0, 0, 0, 0⟩).map
        ReceivedNode.port).getD 4200
      providerFd := -1 }

/-- The well-formed destinations of a JOB_REQUEST, in order. -/
def parseDestinations (nodes : Table nodeCallbacks) (tokens : List Text) :
    List PendingResource :=
  tokens.filterMap (parseDestination nodes)

/-- One `snprintf(result + offset, buffer_size - offset, ..)` of
`get_nodes_instance`, made only while the offset is inside the buffer. -/
def appendAt (size : Nat) (result : Text × Nat) (piece : Text) : Text × Nat :=
  if result.2 < size then
    (result.1 ++ piece.take (size - result.2 - 1), result.2 + piece.length)
  else result

/-- `"%s:%d:cpu:%d:mem:%d:gpu:%d"`. -/
def nodeText (node : ReceivedNode) : Text :=
  inetNtop node.ip ++ ":".toList ++ itoa node.port ++ ":cpu:".toList ++ itoa node.cpu ++
    ":mem:".toList ++ itoa node.mem ++ ":gpu:".toList ++ itoa node.gpu

/-- The loop of `get_nodes_instance`; `first` tells whether a separator is
needed. -/
def appendNodes (size : Nat) : Bool → List ReceivedNode → Text × Nat → Text × Nat
  | _, [], result => result
  | first, node :: rest, result =>
      let separated := if first then result else appendAt size result ";".toList
      appendNodes size false rest (appendAt size separated (nodeText node))

/-- `get_nodes_instance()`. -/
def getNodesInstance (nodes : Table nodeCallbacks) : Text :=
  let result := appendNodes 8192 true nodes.toList (appendAt 8192 ([], 0) "NODES ".toList)
  if result.2 < 8191 then result.1 ++ "\n".toList else result.1

/-- The job a JOB_REQUEST allocates. -/
def makeJob (s : ClientState) (jobId : Int) (nextReq : List PendingResource) (timer : Int) :
    LocalJob :=
  ⟨s.brk, jobId, -1, nextReq, [], timer⟩

/-- `erlang_to_C(instruction, timer)`. -/
def erlangToC (nodes : Table nodeCallbacks) (timer : Int) (dial : Dial) (s : ClientState) :
    ErlangCommand → ClientState × List Effect
  | .jobRequest jobId [] => (s, cToErlang .rejected jobId)
  | .jobRequest jobId destinations =>
      let newjob := makeJob s (atoi jobId) (parseDestinations nodes destinations) timer
      askForNextResource dial (s.insertJob newjob) newjob
  | .jobRelease jobId =>
      match s.findJob (atoi jobId) with
      | none => (s, [])
      | some job =>
          let torn := tearDown s job
          let released := releaseResources torn.1 job
          (released.1.removeJob job, torn.2 ++ released.2)
  | .jobStatus jobId =>
      match s.findJob (atoi jobId) with
      | none => (s, cToErlang .timeout jobId)
      | some job =>
          if job.nextReq = [] then (s, cToErlang .granted jobId)
          else (s, cToErlang .waiting jobId)
  | .getNodes => (s, [.nodes (getNodesInstance nodes)])
  | .ignored => (s, [])

/-! ## The timeout sweep -/

/-- A job still waiting for a resource after `JOB_TIMEOUT_SEC`. -/
def expired (now : Int) (job : LocalJob) : Bool :=
  decide (job.nextReq ≠ []) && decide (now - job.timer ≥ 30)

/-- The second pass of `check_ourjob_timeouts`, over the collected ids. -/
def timeOut : List Int → ClientState → ClientState × List Effect
  | [], s => (s, [])
  | jobId :: ids, s =>
      match s.findJob jobId with
      | none => timeOut ids s
      | some job =>
          let torn := tearDown s job
          let released := releaseResources torn.1 job
          let rest := timeOut ids (released.1.removeJob job)
          (rest.1, torn.2 ++ released.2 ++ cToErlang .timeout (itoa job.jobId) ++ rest.2)

/-- `check_ourjob_timeouts(table_localjobs)`. -/
def checkOurjobTimeouts (now : Int) (s : ClientState) : ClientState × List Effect :=
  timeOut (((s.jobs.filter (expired now)).map LocalJob.jobId).take 256) s

/-! ## Steps -/

/-- A client-side handler, with what it gets from the outside. -/
inductive ClientEvent where
  | erlang (instruction : Text) (timer : Int) (nodes : Table nodeCallbacks) (dial : Dial)
  | line (fd : Int) (instruction : Text) (now : Int) (dial : Dial)
  | sendRequest (fd : Int)
  | disconnect (fd : Int)
  | sweep (now : Int)

/-- One handler: the new state and what it did outside. -/
def clientStep (s : ClientState) : ClientEvent → ClientState × List Effect
  | .erlang instruction timer nodes dial => erlangToC nodes timer dial s (parseErlang instruction)
  | .line fd instruction now dial => clientToMyserver now dial s fd (parseRemote instruction)
  | .sendRequest fd => sendRequest s fd
  | .disconnect fd => handleOutboundDisconnect s fd
  | .sweep now => checkOurjobTimeouts now s

end ResourceAgent.Ports.Client
