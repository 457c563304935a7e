import Mathlib.Algebra.Order.BigOperators.Group.List
import ResourceAgent.Ports.Wire

/-!
# The server side: granting and reclaiming a node's own resources

`enqueue_jobs`, `record_granted`, `drain_queue`, `reserve_elements` and
`release_client_by_fd` of `agent/utils.c`, with `resource_queue.c` under them,
each as one function that runs to completion (one handler at a time).

`getpeername` is answered by the environment: a `Peers` value gives the reply
for the `k`-th grant of each queue in the current handler, `none` when the call
fails.

The drain is specified once, by `Drained`: which requests a handler granted,
in which order it recorded them, what left the queues, and what was sent.
Everything later modules say about a handler of this side — conservation,
bounds, who holds what — is read off that relation.
-/

namespace ResourceAgent.Ports.Reservation

open ResourceAgent.Ports.HashTable
open ResourceAgent.Ports.Records
open ResourceAgent.Ports.Wire
open ResourceAgent.Verified.CText

/-! ## State and queue operations -/

/-- The globals of the server side: `cpu_queue`, `mem_queue` and `gpu_queue`,
`table_nodejobs`, and the next address `malloc` hands out for a request. -/
structure ServerState where
  queue : Resource → RequestQueue
  tableNodejobs : Table jobCallbacks
  brk : Nat

/-- A peer address, as `getpeername` reports it. -/
abbrev Addr := Int × Int

/-- `getpeername(fd)` at the `k`-th grant of a queue's drain. -/
abbrev Peers := Resource → Nat → Int → Option Addr

/-- `make_queue(resources)`. -/
def makeQueue (resources : Int) : RequestQueue := ⟨resources, []⟩

/-- The server side after `main` has set it up with the given capacities. -/
def ServerState.init (capacity : Resource → Int) : ServerState where
  queue r := makeQueue (capacity r)
  tableNodejobs := tablahashCreate jobCallbacks
  brk := 0

/-- `enqueue_request`: link the request behind the last one. -/
def enqueueRequest (q : RequestQueue) (req : Request) : RequestQueue :=
  { q with requests := q.requests ++ [req] }

/-- Replace one of the three queues. -/
def ServerState.setQueue (s : ServerState) (r : Resource) (q : RequestQueue) : ServerState :=
  { s with queue := fun r' => if r' = r then q else s.queue r' }

@[simp] theorem setQueue_queue (s : ServerState) (r r' : Resource) (q : RequestQueue) :
    (s.setQueue r q).queue r' = if r' = r then q else s.queue r' := rfl

@[simp] theorem setQueue_tableNodejobs (s : ServerState) (r : Resource) (q : RequestQueue) :
    (s.setQueue r q).tableNodejobs = s.tableNodejobs := rfl

@[simp] theorem setQueue_brk (s : ServerState) (r : Resource) (q : RequestQueue) :
    (s.setQueue r q).brk = s.brk := rfl

/-! ## The handlers -/

/-- The key under which a grant is recorded; `getpeername` failing leaves the
address at zero. -/
def grantKey (peer : Option Addr) (jobId : Int) : ReceivedJob :=
  ⟨jobId, (peer.getD (0, 0)).1, (peer.getD (0, 0)).2, 0, 0, 0, 0⟩

/-- `record_granted`: add the amount to the record of `(job, peer)`, creating
it if needed, and attribute the record to the socket. -/
def recordGranted (peer : Option Addr) (t : Table jobCallbacks)
    (jobId originSocket : Int) (r : Resource) (amount : Int) : Table jobCallbacks :=
  let rj := (tablahashFind t (grantKey peer jobId)).getD (grantKey peer jobId)
  tablahashInsert t ({ rj with originalSocket := originSocket }.grant r amount)

/-- The locked loop of `drain_queue`: grant head requests while the free
amount covers them.  `ready` is the stash, linked through `next_req`, so the
request granted last is at its head. -/
def drainLocked (left : Int) : List Request → List Request → RequestQueue × List Request
  | [], ready => (⟨left, []⟩, ready)
  | req :: rest, ready =>
      if left ≥ req.amountRequested then
        drainLocked (left - req.amountRequested) rest (req :: ready)
      else (⟨left, req :: rest⟩, ready)

/-- The second loop of `drain_queue`, outside the lock: record each stashed
request and answer it. -/
def serveReady (peer : Nat → Int → Option Addr) (r : Resource) :
    List Request → Table jobCallbacks → Table jobCallbacks × List Effect
  | [], t => (t, [])
  | req :: ready, t =>
      let t' := recordGranted (peer 0 req.originSocket) t
        req.jobId req.originSocket r req.amountRequested
      let rest := serveReady (fun k => peer (k + 1)) r ready t'
      (rest.1, .recorded r req :: .send req.originSocket (grantedLine req.jobId) :: rest.2)

/-- `drain_queue(q, type)`. -/
def drainQueue (peers : Peers) (s : ServerState) (r : Resource) :
    ServerState × List Effect :=
  let drained := drainLocked (s.queue r).resourcesLeft (s.queue r).requests []
  let served := serveReady (peers r) r drained.2 s.tableNodejobs
  ({ s.setQueue r drained.1 with tableNodejobs := served.1 }, served.2)

/-- `reserve_elements`: drain cpu, then mem, then gpu. -/
def reserveElements (peers : Peers) (s : ServerState) : ServerState × List Effect :=
  let cpu := drainQueue peers s .cpu
  let mem := drainQueue peers cpu.1 .mem
  let gpu := drainQueue peers mem.1 .gpu
  (gpu.1, cpu.2 ++ mem.2 ++ gpu.2)

/-- The request a RESERVE allocates. -/
def makeRequest (s : ServerState) (jobId fd amount : Int) : Request :=
  ⟨s.brk, jobId, fd, amount⟩

/-- The first half of `enqueue_jobs`: allocate the request and append it. -/
def enqueueOnly (s : ServerState) (r : Resource) (req : Request) : ServerState :=
  { s.setQueue r (enqueueRequest (s.queue r) req) with brk := s.brk + 1 }

/-- `enqueue_jobs(resource, job_id, amount, current_fd)`. -/
def enqueueJobs (peers : Peers) (s : ServerState) (resource : Text)
    (jobId amount fd : Int) : ServerState × List Effect :=
  reserveElements peers
    (enqueueOnly s (Resource.ofName resource) (makeRequest s jobId fd amount))

/-- The records the bucket walk of `release_client_by_fd` unlinks. -/
def reservedOn (t : Table jobCallbacks) (fd : Int) : List ReceivedJob :=
  t.toList.filter (fun job => decide (job.originalSocket = fd))

/-- `add_cpu`, `add_mem`, `add_gpu`: the amounts summed over unlinked records. -/
def totalGranted (jobs : List ReceivedJob) (r : Resource) : Int :=
  (jobs.map fun job => job.granted r).sum

/-- `release_client_by_fd` up to the re-drain: unlink and credit. -/
def creditOnly (s : ServerState) (fd : Int) : ServerState where
  queue r := { s.queue r with
    resourcesLeft := (s.queue r).resourcesLeft +
      totalGranted (reservedOn s.tableNodejobs fd) r }
  tableNodejobs := removeWhere s.tableNodejobs
    (fun job => decide (job.originalSocket = fd))
  brk := s.brk

/-- `release_client_by_fd(fd)`: nothing when nothing is reserved on `fd`. -/
def releaseClientByFd (peers : Peers) (s : ServerState) (fd : Int) :
    ServerState × List Effect :=
  if reservedOn s.tableNodejobs fd = [] then (s, [])
  else reserveElements peers (creditOnly s fd)

/-- The server side of `client_to_myserver`: what a line from a peer does to
the pools, the queues and `table_nodejobs`. -/
def serverMessage (peers : Peers) (s : ServerState) (fd : Int) (line : Text) :
    ServerState × List Effect :=
  match parseRemote line with
  | .reserve jobId resource amount => enqueueJobs peers s resource jobId amount fd
  | .release => releaseClientByFd peers s fd
  | _ => (s, [])

/-! ## What a drain does -/

/-- One granted request: its queue and the answer `getpeername` gave. -/
structure Grant where
  resource : Resource
  req : Request
  peer : Option Addr
  deriving DecidableEq, Repr

namespace Grant

/-- The `record_granted` call of a grant. -/
def record (t : Table jobCallbacks) (g : Grant) : Table jobCallbacks :=
  recordGranted g.peer t g.req.jobId g.req.originSocket g.resource g.req.amountRequested

/-- The record and the answer of a grant, in this order. -/
def effects (g : Grant) : List Effect :=
  [.recorded g.resource g.req, .send g.req.originSocket (grantedLine g.req.jobId)]

end Grant

/-- The requests of one resource among some grants. -/
def grantedReqs (grants : List Grant) (r : Resource) : List Request :=
  (grants.filter fun g => decide (g.resource = r)).map fun g => g.req

/-- The amount of one resource handed out by some grants. -/
def grantedAmount (grants : List Grant) (r : Resource) : Int :=
  ((grantedReqs grants r).map fun req => req.amountRequested).sum

@[simp] theorem grantedReqs_nil (r : Resource) : grantedReqs [] r = [] := rfl

@[simp] theorem grantedReqs_append (gs hs : List Grant) (r : Resource) :
    grantedReqs (gs ++ hs) r = grantedReqs gs r ++ grantedReqs hs r := by
  simp [grantedReqs]

theorem mem_grantedReqs {gs : List Grant} {r : Resource} {req : Request} :
    req ∈ grantedReqs gs r ↔ ∃ g ∈ gs, g.resource = r ∧ g.req = req := by
  simp [grantedReqs, and_assoc]

/-- `s` becomes `s'` by granting `grants`, recorded in this order: each queue
loses a prefix consisting of the granted requests, the pool loses their
amounts and covers them, and every grant is recorded and answered. -/
structure Drained (peers : Peers) (s s' : ServerState) (out : List Effect)
    (grants : List Grant) : Prop where
  queues : ∀ r, ∃ served, (s.queue r).requests = served ++ (s'.queue r).requests ∧
    served.Perm (grantedReqs grants r)
  left : ∀ r, (s'.queue r).resourcesLeft =
    (s.queue r).resourcesLeft - grantedAmount grants r
  covered : ∀ r, grantedReqs grants r = [] ∨ 0 ≤ (s'.queue r).resourcesLeft
  table : s'.tableNodejobs = grants.foldl Grant.record s.tableNodejobs
  out : out = grants.flatMap Grant.effects
  peer : ∀ g ∈ grants, ∃ k, g.peer = peers g.resource k g.req.originSocket
  brk : s'.brk = s.brk

theorem Drained.trans {peers : Peers} {s₁ s₂ s₃ : ServerState}
    {out₁ out₂ : List Effect} {gs₁ gs₂ : List Grant}
    (h₁ : Drained peers s₁ s₂ out₁ gs₁) (h₂ : Drained peers s₂ s₃ out₂ gs₂) :
    Drained peers s₁ s₃ (out₁ ++ out₂) (gs₁ ++ gs₂) where
  queues r := by
    obtain ⟨served₁, hCut₁, hPerm₁⟩ := h₁.queues r
    obtain ⟨served₂, hCut₂, hPerm₂⟩ := h₂.queues r
    refine ⟨served₁ ++ served₂, ?_, ?_⟩
    · rw [hCut₁, hCut₂, List.append_assoc]
    · rw [grantedReqs_append]
      exact hPerm₁.append hPerm₂
  left r := by
    rw [h₂.left, h₁.left]
    simp only [grantedAmount, grantedReqs_append, List.map_append, List.sum_append]
    omega
  covered r := by
    rcases h₂.covered r with h | h
    · have hSame : (s₃.queue r).resourcesLeft = (s₂.queue r).resourcesLeft := by
        simp [h₂.left r, grantedAmount, h]
      rw [grantedReqs_append, h, List.append_nil, hSame]
      exact h₁.covered r
    · exact .inr h
  table := by rw [h₂.table, h₁.table, List.foldl_append]
  out := by rw [h₁.out, h₂.out, List.flatMap_append]
  peer g hg := by
    rcases List.mem_append.mp hg with hg | hg
    · exact h₁.peer g hg
    · exact h₂.peer g hg
  brk := by rw [h₂.brk, h₁.brk]

/-- A queue is blocked when it is empty or its head asks for more than is
free. -/
def Blocked (q : RequestQueue) : Prop :=
  ∀ req ∈ q.requests.head?, q.resourcesLeft < req.amountRequested

instance (q : RequestQueue) : Decidable (Blocked q) := by
  unfold Blocked
  infer_instance

/-- The locked loop grants a prefix, stashes it in reverse, and stops at an
empty queue or at a head it cannot cover. -/
theorem drainLocked_spec (reqs : List Request) :
    ∀ (left : Int) (ready : List Request), ∃ served rest,
      reqs = served ++ rest ∧
      drainLocked left reqs ready =
        (⟨left - (served.map fun req => req.amountRequested).sum, rest⟩,
          served.reverse ++ ready) ∧
      Blocked ⟨left - (served.map fun req => req.amountRequested).sum, rest⟩ ∧
      (served = [] ∨ 0 ≤ left - (served.map fun req => req.amountRequested).sum) := by
  induction reqs with
  | nil =>
      intro left ready
      exact ⟨[], [], rfl, by simp [drainLocked], by simp [Blocked], .inl rfl⟩
  | cons req reqs ih =>
      intro left ready
      by_cases hEnough : left ≥ req.amountRequested
      · obtain ⟨served, rest, hCut, hDrain, hBlocked, hCovered⟩ :=
          ih (left - req.amountRequested) (req :: ready)
        have hLeft : left - ((req :: served).map fun x => x.amountRequested).sum =
            left - req.amountRequested - (served.map fun x => x.amountRequested).sum := by
          simp only [List.map_cons, List.sum_cons]
          omega
        refine ⟨req :: served, rest, by simp [hCut], ?_, ?_, .inr ?_⟩
        · rw [drainLocked, if_pos hEnough, hDrain, hLeft]
          simp
        · rw [hLeft]
          exact hBlocked
        · rw [hLeft]
          rcases hCovered with hNone | hPos
          · rw [hNone, List.map_nil, List.sum_nil]
            omega
          · exact hPos
      · refine ⟨[], req :: reqs, rfl, ?_, ?_, .inl rfl⟩
        · simp [drainLocked, hEnough]
        · intro x hx
          simp only [List.head?_cons, Option.mem_def, Option.some.injEq] at hx
          subst hx
          simpa using hEnough

/-- The grants behind a stash. -/
def stashGrants (peer : Nat → Int → Option Addr) (r : Resource) : List Request → List Grant
  | [] => []
  | req :: ready =>
      ⟨r, req, peer 0 req.originSocket⟩ :: stashGrants (fun k => peer (k + 1)) r ready

theorem serveReady_eq (r : Resource) (ready : List Request) :
    ∀ (peer : Nat → Int → Option Addr) (t : Table jobCallbacks),
      serveReady peer r ready t =
        ((stashGrants peer r ready).foldl Grant.record t,
          (stashGrants peer r ready).flatMap Grant.effects) := by
  induction ready with
  | nil => intro peer t; rfl
  | cons req ready ih =>
      intro peer t
      simp only [serveReady, stashGrants, List.foldl_cons, List.flatMap_cons, ih]
      rfl

theorem grantedReqs_stashGrants (r : Resource) (ready : List Request) :
    ∀ (peer : Nat → Int → Option Addr) (r' : Resource),
      grantedReqs (stashGrants peer r ready) r' = if r = r' then ready else [] := by
  induction ready with
  | nil => intro peer r'; simp [stashGrants]
  | cons req ready ih =>
      intro peer r'
      have hCons : grantedReqs (stashGrants peer r (req :: ready)) r' =
          (if r = r' then [req] else []) ++
            grantedReqs (stashGrants (fun k => peer (k + 1)) r ready) r' := by
        by_cases hr : r = r' <;> simp [stashGrants, grantedReqs, hr]
      rw [hCons, ih]
      by_cases hr : r = r' <;> simp [hr]

theorem peer_stashGrants (r : Resource) (ready : List Request) :
    ∀ (peer : Nat → Int → Option Addr), ∀ g ∈ stashGrants peer r ready,
      g.resource = r ∧ ∃ k, g.peer = peer k g.req.originSocket := by
  induction ready with
  | nil => intro peer g hg; simp [stashGrants] at hg
  | cons req ready ih =>
      intro peer g hg
      rcases List.mem_cons.mp hg with rfl | hg
      · exact ⟨rfl, 0, rfl⟩
      · obtain ⟨hr, k, hk⟩ := ih _ g hg
        exact ⟨hr, k + 1, hk⟩

/-- **One drain.**  It grants some prefix of its queue and leaves the queue
blocked; the other queues are not touched. -/
theorem drainQueue_drained (peers : Peers) (s : ServerState) (r : Resource) :
    ∃ grants, Drained peers s (drainQueue peers s r).1 (drainQueue peers s r).2 grants ∧
      Blocked ((drainQueue peers s r).1.queue r) ∧
      ∀ r', r' ≠ r → (drainQueue peers s r).1.queue r' = s.queue r' := by
  obtain ⟨served, rest, hCut, hDrain, hBlocked, hCovered⟩ :=
    drainLocked_spec (s.queue r).requests (s.queue r).resourcesLeft []
  rw [List.append_nil] at hDrain
  have hGranted : ∀ r', grantedReqs (stashGrants (peers r) r served.reverse) r' =
      if r = r' then served.reverse else [] :=
    grantedReqs_stashGrants r served.reverse (peers r)
  refine ⟨stashGrants (peers r) r served.reverse, ?_, ?_, ?_⟩
  · refine ⟨?_, ?_, ?_, ?_, ?_, ?_, ?_⟩
    · intro r'
      by_cases hr : r' = r
      · subst hr
        refine ⟨served, ?_, ?_⟩
        · simp only [drainQueue, setQueue_queue, if_true, hDrain]
          exact hCut
        · rw [hGranted, if_pos rfl]
          exact (List.reverse_perm served).symm
      · refine ⟨[], by simp [drainQueue, hr], ?_⟩
        rw [hGranted, if_neg (Ne.symm hr)]
    · intro r'
      rw [grantedAmount, hGranted]
      by_cases hr : r' = r
      · subst hr
        simp only [drainQueue, setQueue_queue, if_true, hDrain]
        rw [List.map_reverse, List.sum_reverse]
      · simp [drainQueue, hr, Ne.symm hr]
    · intro r'
      rw [hGranted]
      by_cases hr : r' = r
      · subst hr
        simpa [drainQueue, hDrain] using hCovered
      · simp [Ne.symm hr]
    · simp only [drainQueue, hDrain, serveReady_eq]
    · simp only [drainQueue, hDrain, serveReady_eq]
    · intro g hg
      obtain ⟨hr, k, hk⟩ := peer_stashGrants r served.reverse (peers r) g hg
      exact ⟨k, by rw [hk, hr]⟩
    · rfl
  · simpa [drainQueue, hDrain] using hBlocked
  · intro r' hr
    simp [drainQueue, hr]

/-- **`reserve_elements`.**  The three drains together grant some prefix of
every queue and leave all three queues blocked. -/
theorem reserveElements_drained (peers : Peers) (s : ServerState) :
    (∃ grants, Drained peers s (reserveElements peers s).1
        (reserveElements peers s).2 grants) ∧
      ∀ r, Blocked ((reserveElements peers s).1.queue r) := by
  obtain ⟨gs₁, h₁, hCpu, -⟩ := drainQueue_drained peers s .cpu
  obtain ⟨gs₂, h₂, hMem, hKeep₂⟩ := drainQueue_drained peers (drainQueue peers s .cpu).1 .mem
  obtain ⟨gs₃, h₃, hGpu, hKeep₃⟩ := drainQueue_drained peers
    (drainQueue peers (drainQueue peers s .cpu).1 .mem).1 .gpu
  refine ⟨⟨gs₁ ++ gs₂ ++ gs₃, (h₁.trans h₂).trans h₃⟩, fun r => ?_⟩
  cases r with
  | cpu =>
      simp only [reserveElements]
      rw [hKeep₃ .cpu (by decide), hKeep₂ .cpu (by decide)]
      exact hCpu
  | mem =>
      simp only [reserveElements]
      rw [hKeep₃ .mem (by decide)]
      exact hMem
  | gpu => exact hGpu

/-! ## Recording grants in the table -/

/-- The record a grant produces from what the table held. -/
def recordOf (t : Table jobCallbacks) (g : Grant) : ReceivedJob :=
  { (tablahashFind t (grantKey g.peer g.req.jobId)).getD (grantKey g.peer g.req.jobId) with
    originalSocket := g.req.originSocket }.grant g.resource g.req.amountRequested

theorem record_eq (t : Table jobCallbacks) (g : Grant) :
    g.record t = tablahashInsert t (recordOf t g) := rfl

/-- The record is filed under the key of its grant. -/
theorem recordOf_key (t : Table jobCallbacks) (g : Grant) :
    (recordOf t g).id = g.req.jobId ∧
      ((recordOf t g).ip, (recordOf t g).port) = g.peer.getD (0, 0) := by
  cases hFind : tablahashFind t (grantKey g.peer g.req.jobId) with
  | none =>
      simp only [recordOf, hFind, Option.getD_none, ReceivedJob.grant_id,
        ReceivedJob.grant_ip, ReceivedJob.grant_port]
      exact ⟨rfl, rfl⟩
  | some e =>
      have hSame := ((find_eq_some_iff _ _ _).mp hFind).2
      simp only [jobCallbacks_same, grantKey, decide_eq_true_eq, Prod.mk.injEq] at hSame
      simp [recordOf, hFind, hSame.1, hSame.2.1, hSame.2.2]

theorem recordOf_same (t : Table jobCallbacks) (g : Grant) (e : ReceivedJob) :
    jobCallbacks.same e (recordOf t g) = jobCallbacks.same e (grantKey g.peer g.req.jobId) := by
  obtain ⟨hId, hAddr⟩ := recordOf_key t g
  have hIp := congrArg Prod.fst hAddr
  have hPort := congrArg Prod.snd hAddr
  simp only at hIp hPort
  simp [grantKey, hId, hIp, hPort]

@[simp] theorem recordOf_originalSocket (t : Table jobCallbacks) (g : Grant) :
    (recordOf t g).originalSocket = g.req.originSocket := by
  simp [recordOf]

/-- The data after recording one grant: the new record, and every record
filed under another key. -/
theorem mem_record {t : Table jobCallbacks} {g : Grant} {e : ReceivedJob} :
    e ∈ (g.record t).toList ↔
      e = recordOf t g ∨
        (e ∈ t.toList ∧ jobCallbacks.same e (grantKey g.peer g.req.jobId) = false) := by
  rw [record_eq, mem_insert, recordOf_same]

/-- The amounts of a new record: what was recorded under its key, plus the
grant. -/
theorem recordOf_granted (t : Table jobCallbacks) (g : Grant) (r : Resource) :
    (recordOf t g).granted r =
      ((tablahashFind t (grantKey g.peer g.req.jobId)).elim 0 fun e => e.granted r) +
        if g.resource = r then g.req.amountRequested else 0 := by
  rw [recordOf, ReceivedJob.granted_grant]
  cases tablahashFind t (grantKey g.peer g.req.jobId) with
  | none => cases r <;> simp [grantKey, ReceivedJob.granted]
  | some e => cases r <;> rfl

/-- What every recorded grant establishes holds of the whole table. -/
theorem forall_foldl_record {P : ReceivedJob → Prop} {grants : List Grant}
    (hGrant : ∀ t : Table jobCallbacks, ∀ g ∈ grants, (∀ e ∈ t.toList, P e) →
      P (recordOf t g)) :
    ∀ t : Table jobCallbacks, (∀ e ∈ t.toList, P e) →
      ∀ e ∈ (grants.foldl Grant.record t).toList, P e := by
  induction grants with
  | nil => intro t ht; exact ht
  | cons g grants ih =>
      intro t ht
      refine ih (fun t' g' hg' => hGrant t' g' (by simp [hg'])) (g.record t) ?_
      intro e he
      rcases mem_record.mp he with rfl | ⟨he, -⟩
      · exact hGrant t g (by simp) ht
      · exact ht e he

/-- Summed over the table, a grant adds exactly its amount. -/
theorem totalGranted_record (t : Table jobCallbacks) (g : Grant) (r : Resource) :
    totalGranted (g.record t).toList r =
      totalGranted t.toList r + if g.resource = r then g.req.amountRequested else 0 := by
  have hPerm := toList_insert_perm t (recordOf t g)
  simp only [recordOf_same] at hPerm
  have hSum := (hPerm.map fun job => job.granted r).sum_eq
  rw [record_eq, totalGranted, hSum, List.map_cons, List.sum_cons]
  cases hFind : tablahashFind t (grantKey g.peer g.req.jobId) with
  | none =>
      rw [filter_eq_of_find_none hFind, recordOf_granted, hFind, totalGranted,
        Option.elim_none]
      omega
  | some e =>
      have hOld := ((toList_perm_of_find hFind).map fun job => job.granted r).sum_eq
      rw [List.map_cons, List.sum_cons] at hOld
      rw [recordOf_granted, hFind, totalGranted, hOld, Option.elim_some]
      omega

theorem totalGranted_foldl_record (grants : List Grant) (r : Resource) :
    ∀ t : Table jobCallbacks,
      totalGranted (grants.foldl Grant.record t).toList r =
        totalGranted t.toList r + grantedAmount grants r := by
  induction grants with
  | nil => intro t; simp [grantedAmount]
  | cons g grants ih =>
      intro t
      rw [List.foldl_cons, ih, totalGranted_record]
      by_cases hr : g.resource = r
      · simp [grantedAmount, grantedReqs, hr]
        omega
      · simp [grantedAmount, grantedReqs, hr]

/-- Unlinking the records of a socket takes their amounts out of the sum. -/
theorem totalGranted_reservedOn (t : Table jobCallbacks) (fd : Int) (r : Resource) :
    totalGranted (removeWhere t fun job => decide (job.originalSocket = fd)).toList r +
        totalGranted (reservedOn t fd) r = totalGranted t.toList r := by
  have hPerm := List.filter_append_perm
    (fun job : ReceivedJob => decide (job.originalSocket = fd)) t.toList
  have hSum := (hPerm.map fun job => job.granted r).sum_eq
  rw [List.map_append, List.sum_append] at hSum
  rw [toList_removeWhere, reservedOn, totalGranted, totalGranted, totalGranted]
  omega

/-! ## Reading a drain -/

/-- What a drain grants was queued, and what it leaves queued was queued. -/
theorem Drained.mem_grants {peers : Peers} {s s' : ServerState} {out : List Effect}
    {grants : List Grant} (h : Drained peers s s' out grants) {g : Grant} (hg : g ∈ grants) :
    g.req ∈ (s.queue g.resource).requests := by
  obtain ⟨served, hCut, hPerm⟩ := h.queues g.resource
  have hMem : g.req ∈ served := hPerm.mem_iff.mpr (mem_grantedReqs.mpr ⟨g, hg, rfl, rfl⟩)
  rw [hCut]
  exact List.mem_append_left _ hMem

theorem Drained.mem_queue {peers : Peers} {s s' : ServerState} {out : List Effect}
    {grants : List Grant} (h : Drained peers s s' out grants) {r : Resource} {req : Request}
    (hreq : req ∈ (s'.queue r).requests) : req ∈ (s.queue r).requests := by
  obtain ⟨served, hCut, -⟩ := h.queues r
  rw [hCut]
  exact List.mem_append_right _ hreq

/-- The recordings a drain reports are those of its grants. -/
theorem Drained.recorded_iff {peers : Peers} {s s' : ServerState} {out : List Effect}
    {grants : List Grant} (h : Drained peers s s' out grants) (r : Resource) (req : Request) :
    Effect.recorded r req ∈ out ↔ ∃ g ∈ grants, g.resource = r ∧ g.req = req := by
  rw [h.out, List.mem_flatMap]
  constructor
  · rintro ⟨g, hg, hMem⟩
    simp only [Grant.effects, List.mem_cons, Effect.recorded.injEq, List.not_mem_nil,
      or_false, reduceCtorEq] at hMem
    exact ⟨g, hg, hMem.1.symm, hMem.2.symm⟩
  · rintro ⟨g, hg, rfl, rfl⟩
    exact ⟨g, hg, by simp [Grant.effects]⟩

/-- A record after a drain was there before, or belongs to the socket of a
grant. -/
theorem Drained.mem_table {peers : Peers} {s s' : ServerState} {out : List Effect}
    {grants : List Grant} (h : Drained peers s s' out grants) {job : ReceivedJob}
    (hJob : job ∈ s'.tableNodejobs.toList) :
    job ∈ s.tableNodejobs.toList ∨ ∃ g ∈ grants, job.originalSocket = g.req.originSocket := by
  rw [h.table] at hJob
  refine forall_foldl_record
    (P := fun e => e ∈ s.tableNodejobs.toList ∨
      ∃ g ∈ grants, e.originalSocket = g.req.originSocket) ?_ _ (fun e he => .inl he) job hJob
  intro t g hg _
  exact .inr ⟨g, hg, recordOf_originalSocket t g⟩

/-! ## The handlers, one by one -/

/-- A drain that grants nothing. -/
theorem Drained.refl (peers : Peers) (s : ServerState) : Drained peers s s [] [] where
  queues r := ⟨[], rfl, .nil⟩
  left r := by simp [grantedAmount]
  covered r := .inl rfl
  table := rfl
  out := rfl
  peer g hg := by simp at hg
  brk := rfl

theorem enqueueJobs_drained (peers : Peers) (s : ServerState) (resource : Text)
    (jobId amount fd : Int) :
    (∃ grants, Drained peers
        (enqueueOnly s (Resource.ofName resource) (makeRequest s jobId fd amount))
        (enqueueJobs peers s resource jobId amount fd).1
        (enqueueJobs peers s resource jobId amount fd).2 grants) ∧
      ∀ r, Blocked ((enqueueJobs peers s resource jobId amount fd).1.queue r) :=
  reserveElements_drained peers _

/-- `release_client_by_fd` either finds nothing reserved on the socket and
does nothing, or credits the pools and re-drains. -/
theorem releaseClientByFd_cases (peers : Peers) (s : ServerState) (fd : Int) :
    (reservedOn s.tableNodejobs fd = [] ∧ releaseClientByFd peers s fd = (s, [])) ∨
      ((∃ grants, Drained peers (creditOnly s fd) (releaseClientByFd peers s fd).1
          (releaseClientByFd peers s fd).2 grants) ∧
        ∀ r, Blocked ((releaseClientByFd peers s fd).1.queue r)) := by
  unfold releaseClientByFd
  split
  · rename_i hNone
    exact .inl ⟨hNone, rfl⟩
  · exact .inr (reserveElements_drained peers _)

/-- What a handler working on `fd` does to the state before it drains. -/
inductive Prepared (s : ServerState) (fd : Int) : ServerState → Prop where
  | idle : Prepared s fd s
  | enqueue (r : Resource) (jobId amount : Int) :
      Prepared s fd (enqueueOnly s r (makeRequest s jobId fd amount))
  | credit : Prepared s fd (creditOnly s fd)

/-- Every handler of a line is a preparation followed by a drain. -/
theorem serverMessage_drained (peers : Peers) (s : ServerState) (fd : Int) (line : Text) :
    ∃ mid grants, Prepared s fd mid ∧
      Drained peers mid (serverMessage peers s fd line).1
        (serverMessage peers s fd line).2 grants := by
  unfold serverMessage
  split
  · rename_i jobId resource amount _
    obtain ⟨⟨grants, h⟩, -⟩ := enqueueJobs_drained peers s resource jobId amount fd
    exact ⟨_, grants, .enqueue _ _ _, h⟩
  · rcases releaseClientByFd_cases peers s fd with ⟨-, hEq⟩ | ⟨⟨grants, h⟩, -⟩
    · rw [hEq]
      exact ⟨s, [], .idle, .refl peers s⟩
    · exact ⟨_, grants, .credit, h⟩
  · exact ⟨s, [], .idle, .refl peers s⟩

theorem releaseClientByFd_drained (peers : Peers) (s : ServerState) (fd : Int) :
    ∃ mid grants, Prepared s fd mid ∧
      Drained peers mid (releaseClientByFd peers s fd).1
        (releaseClientByFd peers s fd).2 grants := by
  rcases releaseClientByFd_cases peers s fd with ⟨-, hEq⟩ | ⟨⟨grants, h⟩, -⟩
  · rw [hEq]
    exact ⟨s, [], .idle, .refl peers s⟩
  · exact ⟨_, grants, .credit, h⟩

/-- Units of a resource that are free or recorded as granted. -/
def pool (s : ServerState) (r : Resource) : Int :=
  (s.queue r).resourcesLeft + totalGranted s.tableNodejobs.toList r

/-- Moving units between the counter and the records keeps their total. -/
theorem pool_drained {peers : Peers} {s s' : ServerState} {out : List Effect}
    {grants : List Grant} (h : Drained peers s s' out grants) (r : Resource) :
    pool s' r = pool s r := by
  rw [pool, pool, h.left, h.table, totalGranted_foldl_record]
  omega

theorem pool_prepared {s mid : ServerState} {fd : Int} (h : Prepared s fd mid)
    (r : Resource) : pool mid r = pool s r := by
  cases h with
  | idle => rfl
  | enqueue r' jobId amount =>
      by_cases hr : r = r'
      · simp [pool, enqueueOnly, enqueueRequest, hr]
      · simp [pool, enqueueOnly, hr]
  | credit =>
      have := totalGranted_reservedOn s.tableNodejobs fd r
      simp only [pool, creditOnly]
      omega

/-- Somebody holds units of a pool in whose drained queue a request waits, if
the requests in it fit in the empty pool. -/
theorem held_of_blocked {capacity : Resource → Int} {s : ServerState} {r : Resource}
    (hBlocked : Blocked (s.queue r)) (hPool : pool s r = capacity r)
    (hFits : ∀ req ∈ (s.queue r).requests, req.amountRequested ≤ capacity r)
    (hWaits : (s.queue r).requests ≠ []) :
    ∃ job ∈ s.tableNodejobs.toList, 0 < job.granted r := by
  obtain ⟨head, rest, hQueue⟩ : ∃ head rest, (s.queue r).requests = head :: rest :=
    List.exists_cons_of_ne_nil hWaits
  have hShort : (s.queue r).resourcesLeft < head.amountRequested :=
    hBlocked head (by simp [hQueue])
  have hHead := hFits head (by simp [hQueue])
  rw [pool] at hPool
  have hTotal : 0 < totalGranted s.tableNodejobs.toList r := by omega
  refine List.exists_lt_of_sum_lt (f := fun _ : ReceivedJob => (0 : Int))
    (g := fun job : ReceivedJob => job.granted r) ?_
  simpa [totalGranted] using hTotal

end ResourceAgent.Ports.Reservation
