import ResourceAgent.Ports.HashTable
import ResourceAgent.Verified.CText

/-!
# The data of `hash.h` and `resource_queue.h`

The structs an agent keeps, the three resource types, and the callbacks that
turn the generic table into the four tables of `hash.c`.

Fields of type `int` are integers, `time_t` is an integer number of seconds,
and a `char[]` field is the text it holds.  Two kinds of pointer are kept as
addresses: the node of a queued `request`, and the `local_job_t` that
`table_localjobs` owns and the fd index refers to.  Neither address is ever
computed with; it only tells one allocation from another.  Fields that no
modelled function reads (`asked_resource`, `erlang_socket`) are left out.
-/

namespace ResourceAgent.Ports.Records

open ResourceAgent.Ports.HashTable
open ResourceAgent.Verified.CText

/-! ## Resources -/

/-- The three resource types, one pool and one queue each. -/
inductive Resource where
  | cpu
  | mem
  | gpu
  deriving DecidableEq, Repr

namespace Resource

/-- The type name used on the wire. -/
def name : Resource → Text
  | .cpu => "cpu".toList
  | .mem => "mem".toList
  | .gpu => "gpu".toList

/-- The `strcmp` chain of `enqueue_jobs`: every name that is neither `cpu` nor
`mem` selects the gpu queue. -/
def ofName (resource : Text) : Resource :=
  if resource = "cpu".toList then .cpu
  else if resource = "mem".toList then .mem
  else .gpu

@[simp] theorem ofName_name (r : Resource) : ofName r.name = r := by
  cases r <;> decide

theorem forall_iff {P : Resource → Prop} : (∀ r, P r) ↔ P .cpu ∧ P .mem ∧ P .gpu := by
  constructor
  · exact fun h => ⟨h .cpu, h .mem, h .gpu⟩
  · rintro ⟨hCpu, hMem, hGpu⟩ (_ | _ | _)
    · exact hCpu
    · exact hMem
    · exact hGpu

instance {P : Resource → Prop} [DecidablePred P] : Decidable (∀ r, P r) :=
  decidable_of_iff _ forall_iff.symm

/-- Position in the fixed acquisition order cpu, mem, gpu. -/
def rank : Resource → Nat
  | .cpu => 0
  | .mem => 1
  | .gpu => 2

theorem rank_injective {r r' : Resource} (h : r.rank = r'.rank) : r = r' := by
  cases r <;> cases r' <;> first | rfl | exact absurd h (by decide)

end Resource

/-! ## The server side -/

/-- A `request` node: one RESERVE waiting in the FIFO of its resource. -/
structure Request where
  addr : Nat
  jobId : Int
  originSocket : Int
  amountRequested : Int
  deriving DecidableEq, Repr

/-- `request_queue`: the free amount of a resource and the requests waiting
for it, first to last. -/
structure RequestQueue where
  resourcesLeft : Int
  requests : List Request
  deriving DecidableEq, Repr

/-- `received_job`: what has been granted to one remote job on one
connection. -/
structure ReceivedJob where
  id : Int
  ip : Int
  port : Int
  cpuGranted : Int
  memGranted : Int
  gpuGranted : Int
  originalSocket : Int
  deriving DecidableEq, Repr

namespace ReceivedJob

/-- The `*_granted` field of a resource. -/
def granted (j : ReceivedJob) : Resource → Int
  | .cpu => j.cpuGranted
  | .mem => j.memGranted
  | .gpu => j.gpuGranted

/-- `rj.<r>_granted += amount`. -/
def grant (j : ReceivedJob) (r : Resource) (amount : Int) : ReceivedJob :=
  match r with
  | .cpu => { j with cpuGranted := j.cpuGranted + amount }
  | .mem => { j with memGranted := j.memGranted + amount }
  | .gpu => { j with gpuGranted := j.gpuGranted + amount }

@[simp] theorem granted_grant_self (j : ReceivedJob) (r : Resource) (amount : Int) :
    (j.grant r amount).granted r = j.granted r + amount := by
  cases r <;> rfl

theorem granted_grant (j : ReceivedJob) (r r' : Resource) (amount : Int) :
    (j.grant r amount).granted r' =
      j.granted r' + if r = r' then amount else 0 := by
  cases r <;> cases r' <;> simp [grant, granted]

@[simp] theorem grant_id (j : ReceivedJob) (r : Resource) (amount : Int) :
    (j.grant r amount).id = j.id := by
  cases r <;> rfl

@[simp] theorem grant_ip (j : ReceivedJob) (r : Resource) (amount : Int) :
    (j.grant r amount).ip = j.ip := by
  cases r <;> rfl

@[simp] theorem grant_port (j : ReceivedJob) (r : Resource) (amount : Int) :
    (j.grant r amount).port = j.port := by
  cases r <;> rfl

@[simp] theorem grant_originalSocket (j : ReceivedJob) (r : Resource) (amount : Int) :
    (j.grant r amount).originalSocket = j.originalSocket := by
  cases r <;> rfl

end ReceivedJob

/-- `received_node`: the last announcement of a peer. -/
structure ReceivedNode where
  ip : Int
  port : Int
  gpu : Int
  mem : Int
  cpu : Int
  time : Int
  deriving DecidableEq, Repr

/-! ## The client side -/

/-- `pending_resource_t`: one destination of a local job. -/
structure PendingResource where
  type : Text
  amount : Int
  destIp : Text
  destPort : Int
  providerFd : Int
  deriving DecidableEq, Repr

/-- `local_job_t`.  `nextReq` and `grantedReqs` are the two linked lists, head
first; `addr` is the address `malloc` returned. -/
structure LocalJob where
  addr : Nat
  jobId : Int
  originSocket : Int
  nextReq : List PendingResource
  grantedReqs : List PendingResource
  timer : Int
  deriving DecidableEq, Repr

/-- `fd_job_entry`: an outbound descriptor and the job it works for. -/
structure FdJobEntry where
  fd : Int
  job : Nat
  deriving DecidableEq, Repr

/-! ## Callbacks -/

/-- Conversion of an `int` to `unsigned`. -/
def asUnsigned (n : Int) : Nat := (n % 2 ^ 32).toNat

/-- `table_nodes`: keyed by ip. -/
def nodeCallbacks : Callbacks ReceivedNode :=
  .ofKey (fun node => node.ip) asUnsigned

/-- `table_nodejobs`: keyed by `(id, ip, port)`, hashed by their sum. -/
def jobCallbacks : Callbacks ReceivedJob :=
  .ofKey (fun job => (job.id, job.ip, job.port))
    (fun key => asUnsigned (key.1 + key.2.1 + key.2.2))

/-- `table_ourjobs`: keyed by descriptor. -/
def fdCallbacks : Callbacks FdJobEntry :=
  .ofKey (fun entry => entry.fd) asUnsigned

/-- `table_localjobs`: keyed by job id. -/
def localjobCallbacks : Callbacks LocalJob :=
  .ofKey (fun job => job.jobId) asUnsigned

@[simp] theorem jobCallbacks_same (a b : ReceivedJob) :
    jobCallbacks.same a b = decide ((a.id, a.ip, a.port) = (b.id, b.ip, b.port)) := rfl

@[simp] theorem fdCallbacks_same (a b : FdJobEntry) :
    fdCallbacks.same a b = decide (a.fd = b.fd) := rfl

@[simp] theorem localjobCallbacks_same (a b : LocalJob) :
    localjobCallbacks.same a b = decide (a.jobId = b.jobId) := rfl

end ResourceAgent.Ports.Records
