import ResourceAgent.Ports.Replacement
import ResourceAgent.Ports.TableMap
import ResourceAgent.Verified.Memory

/-!
# The client side in memory

`Ports.Client` has a job and its two lists as one value.  Here `local_job_t` and
`pending_resource_t` are blocks on a heap, allocated by JOB_REQUEST and freed by
`destr_localjob`, and every field is read and written through a pointer:
`table_localjobs` stores the pointers themselves (`copy_localjob` does not clone),
`table_ourjobs` stores copies of `fd_job_entry` with such a pointer in them, and
the comparisons of the owner table follow the pointers they find.

A handler has no result when it follows a pointer that is NULL or leads to freed
memory, or frees what is not allocated.

`malloc` returns an address that is not in use at that moment; addresses that
were freed come back.  The nodes of the tables are those of `Ports.TableMap`.

What is said of runs of `Ports.Client` reaches the program through `Ports.JobSafety`, in
the runs in which no JOB_REQUEST replaces a job with a request in flight
(`Replacement.Orderly`); where every JOB_REQUEST brings an unused id that is every run.
-/

namespace ResourceAgent.Ports.JobMemory

open ResourceAgent.Ports.HashTable
open ResourceAgent.Ports.Records
open ResourceAgent.Ports.Wire
open ResourceAgent.Ports.Client
open ResourceAgent.Ports.TableMap (RawTable localjobFunctions)
open ResourceAgent.Verified.CText
open ResourceAgent.Verified.Memory

/-! ## Memory -/

/-- `pending_resource_t`. -/
structure PendingBlock where
  data : PendingResource
  next : Option Nat
  deriving DecidableEq, Repr

/-- `local_job_t`. -/
structure JobBlock where
  jobId : Int
  originSocket : Int
  nextReq : Option Nat
  grantedReqs : Option Nat
  timer : Int
  deriving DecidableEq, Repr

structure Blocks where
  jobs : Heap Nat JobBlock
  pending : Heap Nat PendingBlock

/-- `malloc`, as a function of what is in use. -/
structure Malloc where
  address : Blocks → Nat
  unused : ∀ m : Blocks, m.jobs.read (address m) = none ∧ m.pending.read (address m) = none

/-- The globals of the client side. -/
structure State where
  mem : Blocks
  localjobs : RawTable Nat
  ourjobs : Table fdCallbacks

namespace State

def init : State := ⟨⟨.empty, .empty⟩, ⟨List.replicate hashSize [], 0⟩, tablahashCreate _⟩

/-- `tablahash_find(table_ourjobs, ..)`. -/
def findEntry (s : State) (fd : Int) : Option FdJobEntry := tablahashFind s.ourjobs ⟨fd, 0⟩

def insertEntry (s : State) (fd : Int) (job : Nat) : State :=
  { s with ourjobs := tablahashInsert s.ourjobs ⟨fd, job⟩ }

def removeEntry (s : State) (fd : Int) : State :=
  { s with ourjobs := tablahashRemove s.ourjobs ⟨fd, 0⟩ }

/-- Writing the fields of a job. -/
def writeJob (s : State) (job : Nat) (block : JobBlock) : Option State :=
  (s.mem.jobs.write job block).map fun jobs => { s with mem := { s.mem with jobs := jobs } }

end State

/-! ## The owner table -/

/-- `func_hash_localjob` on an id, modulo the capacity. -/
def bucketOf (t : RawTable Nat) (jobId : Int) : Nat := asUnsigned jobId % t.elems.length

/-- `find_in_list`: the position of the node it returns. -/
def findInList (jobs : Heap Nat JobBlock) (jobId : Int) : List Nat → Option (Option Nat)
  | [] => some none
  | job :: rest => do
      let block ← jobs.read job
      if block.jobId = jobId then return some 0
      let found ← findInList jobs jobId rest
      return found.map (· + 1)

/-- The loop of `tablahash_remove`: the pointer it stops at, and the list without it. -/
def unlinkFirst (jobs : Heap Nat JobBlock) (jobId : Int) :
    List Nat → Option (Option (Nat × List Nat))
  | [] => some none
  | job :: rest => do
      let block ← jobs.read job
      if block.jobId = jobId then return some (job, rest)
      let found ← unlinkFirst jobs jobId rest
      return found.map fun r => (r.1, job :: r.2)

/-- `destr_localjob(job)`. -/
def destrLocaljob (m : Blocks) (job : Nat) : Option Blocks := do
  let block ← m.jobs.read job
  let pending ← m.pending.freeList PendingBlock.next block.nextReq
  let pending ← pending.freeList PendingBlock.next block.grantedReqs
  let jobs ← m.jobs.free job
  return ⟨jobs, pending⟩

namespace State

/-- `tablahash_find(table_localjobs, ..)`. -/
def findJob (s : State) (jobId : Int) : Option (Option Nat) := do
  let list := s.localjobs.list (bucketOf s.localjobs jobId)
  let found ← findInList s.mem.jobs jobId list
  return found.bind fun node => list[node]?

/-- `tablahash_insert(table_localjobs, job)`. -/
def insertJob (s : State) (job : Nat) : Option State := do
  let block ← s.mem.jobs.read job
  let i := bucketOf s.localjobs block.jobId
  let list := s.localjobs.list i
  match ← findInList s.mem.jobs block.jobId list with
  | some node =>
      let old ← list[node]?
      let mem ← destrLocaljob s.mem old
      return { s with mem := mem, localjobs := s.localjobs.setList i (list.set node job) }
  | none =>
      return { s with
        localjobs := { s.localjobs.setList i (job :: list) with
          numElems := s.localjobs.numElems + 1 } }

/-- `tablahash_remove_lock(table_localjobs, job)`. -/
def removeJob (s : State) (job : Nat) : Option State := do
  let block ← s.mem.jobs.read job
  let i := bucketOf s.localjobs block.jobId
  match ← unlinkFirst s.mem.jobs block.jobId (s.localjobs.list i) with
  | none => return s
  | some (current, list) =>
      let mem ← destrLocaljob s.mem current
      return { s with
        mem := mem
        localjobs := { s.localjobs.setList i list with numElems := s.localjobs.numElems - 1 } }

end State

/-! ## Handlers -/

/-- `ask_for_next_resource(job)`. -/
def askForNextResource (dial : Dial) (s : State) (job : Nat) : Option (State × List Effect) := do
  let block ← s.mem.jobs.read job
  match block.nextReq with
  | none => return (s, cToErlang .granted (itoa block.jobId))
  | some req =>
      match dial with
      | .noSocket => return (s, [])
      | .connectFails fd =>
          let _ ← s.mem.pending.read req
          return (s, [.close fd])
      | .epollFails fd =>
          let req ← s.mem.pending.read req
          let s ← s.writeJob job { block with originSocket := fd }
          return ((s.insertEntry fd job).removeEntry fd,
            [.connect fd block.jobId req.data, .close fd])
      | .connected fd =>
          let req ← s.mem.pending.read req
          let s ← s.writeJob job { block with originSocket := fd }
          return (s.insertEntry fd job, [.connect fd block.jobId req.data, .epollAdd fd])

/-- The loop body of `release_resources`. -/
def releaseBlock (jobId : Int) (granted : PendingBlock) : PendingBlock × List Effect :=
  ({ granted with
      data := if 0 ≤ granted.data.providerFd then { granted.data with providerFd := -1 }
        else granted.data },
    releaseProvider jobId granted.data)

/-- `release_resources(job)`. -/
def releaseResources (s : State) (job : Nat) : Option (State × List Effect) := do
  let block ← s.mem.jobs.read job
  let (pending, out) ←
    s.mem.pending.visitList PendingBlock.next (releaseBlock block.jobId) block.grantedReqs
  return ({ s with mem := { s.mem with pending := pending } }, out)

/-- GRANTED: the first request moves to `granted_reqs`, and the timer starts again. -/
def advance (s : State) (job : Nat) (fd now : Int) : Option State := do
  let block ← s.mem.jobs.read job
  match block.nextReq with
  | none => s.writeJob job { block with timer := now }
  | some req =>
      let node ← s.mem.pending.read req
      let pending ← s.mem.pending.write req
        ⟨{ node.data with providerFd := fd }, block.grantedReqs⟩
      { s with mem := { s.mem with pending := pending } }.writeJob job
        { block with nextReq := node.next, grantedReqs := some req, timer := now }

/-- A rejection: by a line, or by the end of the connection. -/
def reject (s : State) (fd : Int) : Option (State × List Effect) := do
  match s.findEntry fd with
  | none => return (s, [])
  | some found =>
      let block ← s.mem.jobs.read found.job
      let (s, out) ← releaseResources (s.removeEntry fd) found.job
      let s ← s.removeJob found.job
      return (s, out ++ cToErlang .rejected (itoa block.jobId))

/-- `client_to_myserver`. -/
def clientToMyserver (now : Int) (dial : Dial) (s : State) (fd : Int) :
    RemoteMessage → Option (State × List Effect)
  | .granted jobId => do
      match s.findEntry fd with
      | none => return (s, [])
      | some found =>
          let block ← s.mem.jobs.read found.job
          if block.jobId = jobId then
            let s ← advance s found.job fd now
            let (s, out) ← askForNextResource dial (s.removeEntry fd) found.job
            return (s, .epollDel fd :: out)
          else return (s, [])
  | .reject => reject s fd
  | _ => some (s, [])

/-- `send_request(fd)`. -/
def sendRequest (s : State) (fd : Int) : Option (State × List Effect) := do
  match s.findEntry fd with
  | none => return (s, [])
  | some found =>
      let block ← s.mem.jobs.read found.job
      match block.nextReq with
      | none => return (s, [])
      | some req =>
          let node ← s.mem.pending.read req
          return (s, [.send fd (reserveLine block.jobId node.data.type node.data.amount),
            .epollMod fd])

/-- Closing the connection of a request still in flight. -/
def tearDown (s : State) (originSocket : Int) : State × List Effect :=
  if 0 ≤ originSocket ∧ (s.findEntry originSocket).isSome then
    (s.removeEntry originSocket, [.epollDel originSocket, .close originSocket])
  else (s, [])

/-- What JOB_RELEASE and the sweep do with a job: its connection in flight, what it
holds, what the scheduler is told, and the job itself. -/
def endJob (told : Int → List Effect) (s : State) (job : Nat) : Option (State × List Effect) := do
  let block ← s.mem.jobs.read job
  let torn := tearDown s block.originSocket
  let (s, out) ← releaseResources torn.1 job
  let s ← s.removeJob job
  return (s, torn.2 ++ out ++ told block.jobId)

/-- The loop of JOB_REQUEST over the destination tokens; `tail` is the last request linked. -/
def linkDestinations (malloc : Malloc) (nodes : Table nodeCallbacks) (newjob : Nat) :
    List Text → Blocks → Option Nat → Option Blocks
  | [], m, _ => some m
  | token :: tokens, m, tail =>
      match parseDestination nodes token with
      | none => linkDestinations malloc nodes newjob tokens m tail
      | some data => do
          let req := malloc.address m
          let pending := m.pending.malloc req ⟨data, none⟩
          let block ← m.jobs.read newjob
          match block.nextReq with
          | none =>
              let jobs ← m.jobs.write newjob { block with nextReq := some req }
              linkDestinations malloc nodes newjob tokens ⟨jobs, pending⟩ (some req)
          | some _ =>
              let last ← tail
              let node ← pending.read last
              let pending ← pending.write last { node with next := some req }
              linkDestinations malloc nodes newjob tokens ⟨m.jobs, pending⟩ (some req)

/-- `erlang_to_C`. -/
def erlangToC (malloc : Malloc) (nodes : Table nodeCallbacks) (timer : Int) (dial : Dial)
    (s : State) : ErlangCommand → Option (State × List Effect)
  | .jobRequest jobId [] => some (s, cToErlang .rejected jobId)
  | .jobRequest jobId destinations => do
      let newjob := malloc.address s.mem
      let jobs := s.mem.jobs.malloc newjob ⟨atoi jobId, -1, none, none, timer⟩
      let mem ← linkDestinations malloc nodes newjob destinations { s.mem with jobs := jobs } none
      let s ← { s with mem := mem }.insertJob newjob
      askForNextResource dial s newjob
  | .jobRelease jobId => do
      match ← s.findJob (atoi jobId) with
      | none => return (s, [])
      | some job => endJob (fun _ => []) s job
  | .jobStatus jobId => do
      match ← s.findJob (atoi jobId) with
      | none => return (s, cToErlang .timeout jobId)
      | some job =>
          let block ← s.mem.jobs.read job
          if block.nextReq = none then return (s, cToErlang .granted jobId)
          else return (s, cToErlang .waiting jobId)
  | .getNodes => some (s, [.nodes (getNodesInstance nodes)])
  | .ignored => some (s, [])

/-! ## The timeout sweep -/

/-- The inner loop of the first pass of `check_ourjob_timeouts`. -/
def collectBucket (now : Int) (jobs : Heap Nat JobBlock) :
    List Nat → List Int → Option (List Int)
  | [], ids => some ids
  | job :: rest, ids =>
      if 256 ≤ ids.length then some ids
      else do
        let block ← jobs.read job
        if block.nextReq ≠ none ∧ now - block.timer ≥ 30 then
          collectBucket now jobs rest (ids ++ [block.jobId])
        else collectBucket now jobs rest ids

/-- The first pass. -/
def collect (now : Int) (jobs : Heap Nat JobBlock) :
    List (List Nat) → List Int → Option (List Int)
  | [], ids => some ids
  | list :: elems, ids =>
      if 256 ≤ ids.length then some ids
      else do
        let ids ← collectBucket now jobs list ids
        collect now jobs elems ids

/-- The second pass. -/
def timeOut : List Int → State → Option (State × List Effect)
  | [], s => some (s, [])
  | jobId :: ids, s => do
      match ← s.findJob jobId with
      | none => timeOut ids s
      | some job =>
          let (s, out) ← endJob (fun id => cToErlang .timeout (itoa id)) s job
          let (s, rest) ← timeOut ids s
          return (s, out ++ rest)

/-- `check_ourjob_timeouts(table_localjobs)`. -/
def checkOurjobTimeouts (now : Int) (s : State) : Option (State × List Effect) := do
  let ids ← collect now s.mem.jobs s.localjobs.elems []
  timeOut ids s

/-! ## Steps -/

/-- One handler; `malloc` is what it gets its memory from. -/
def step (malloc : Malloc) (s : State) : ClientEvent → Option (State × List Effect)
  | .erlang instruction timer nodes dial =>
      erlangToC malloc nodes timer dial s (parseErlang instruction)
  | .line fd instruction now dial => clientToMyserver now dial s fd (parseRemote instruction)
  | .sendRequest fd => sendRequest s fd
  | .disconnect fd => reject s fd
  | .sweep now => checkOurjobTimeouts now s

/-- Handlers one after the other. -/
def runFrom (s : State) : List (Malloc × ClientEvent) → Option (State × List Effect)
  | [] => some (s, [])
  | (malloc, e) :: es => do
      let (s, out) ← step malloc s e
      let (s, rest) ← runFrom s es
      return (s, out ++ rest)

end ResourceAgent.Ports.JobMemory
