import ResourceAgent.Ports.NetClient
import ResourceAgent.Ports.ServerRun

/-!
# From the type of a destination to a pool of the provider

A destination token `@ip:type:amount` is read by `erlang_to_C`, which keeps the
first seven characters of its type, sent as a RESERVE line by `send_request`,
and read again by the provider, where `enqueue_jobs` picks a queue by name.
Every type that is neither `cpu` nor `mem` picks the gpu queue there.

Between handlers a provider's queues are drained, so a RESERVE does one of two
things: its request waits behind the others of its queue, or its queue was
empty and it is granted at once (`enqueueJobs_cases`).  No other pool moves.
A request that waits stays in its queue until a later handler grants it, and what a
handler grants it takes from the pools and adds to the records of the job, in the
field of that pool (`Accounts`).  `pool_is_the_named_one` follows a token to the end:
the pool is the one named if and only if the type is one of the three names.
-/

namespace ResourceAgent.Ports.NamedPool

open ResourceAgent.Ports.HashTable
open ResourceAgent.Ports.Records
open ResourceAgent.Ports.Wire
open ResourceAgent.Ports.Client
open ResourceAgent.Ports.Reservation
open ResourceAgent.Ports.ServerRun
open ResourceAgent.Ports.NetInvariant
open ResourceAgent.Verified.CText
open ResourceAgent.Verified.Runs

/-! ## One RESERVE at a drained provider -/

theorem setQueue_self (s : ServerState) (r : Resource) : s.setQueue r (s.queue r) = s := by
  cases s
  simp only [ServerState.setQueue, ServerState.mk.injEq, and_true]
  funext r'
  split
  · rename_i hr
    rw [hr]
  · rfl

theorem drainQueue_blocked (peers : Peers) {s : ServerState} {r : Resource}
    (h : Blocked (s.queue r)) : drainQueue peers s r = (s, []) := by
  have hLocked : drainLocked (s.queue r).resourcesLeft (s.queue r).requests [] =
      (s.queue r, []) := by
    cases hReqs : (s.queue r).requests with
    | nil => rw [drainLocked, ← hReqs]
    | cons req rest =>
        have hShort := h req (by rw [hReqs]; rfl)
        rw [drainLocked, if_neg (by omega), ← hReqs]
  simp only [drainQueue, hLocked, serveReady]
  rw [setQueue_self]

theorem drainQueue_queue_ne (peers : Peers) (s : ServerState) {r r' : Resource} (h : r' ≠ r) :
    (drainQueue peers s r).1.queue r' = s.queue r' := by
  simp [drainQueue, h]

/-- With the two other queues drained, `reserve_elements` is one drain. -/
theorem reserveElements_eq_drain (peers : Peers) {s : ServerState} {r : Resource}
    (h : ∀ r', r' ≠ r → Blocked (s.queue r')) :
    reserveElements peers s = drainQueue peers s r := by
  have hAfter : ∀ r', r' ≠ r → drainQueue peers (drainQueue peers s r).1 r' =
      ((drainQueue peers s r).1, []) := by
    intro r' hr
    refine drainQueue_blocked peers ?_
    rw [drainQueue_queue_ne peers s hr]
    exact h r' hr
  cases r with
  | cpu =>
      simp only [reserveElements, hAfter .mem (by decide), hAfter .gpu (by decide),
        List.append_nil]
  | mem =>
      simp only [reserveElements, drainQueue_blocked peers (h .cpu (by decide)),
        hAfter .gpu (by decide), List.nil_append, List.append_nil]
  | gpu =>
      simp only [reserveElements, drainQueue_blocked peers (h .cpu (by decide)),
        drainQueue_blocked peers (h .mem (by decide)), List.nil_append]

/-- A RESERVE whose request joins the queue of `r`. -/
structure Waits (r : Resource) (jobId amount fd : Int) (s s' : ServerState)
    (out : List Effect) : Prop where
  requests : (s'.queue r).requests = (s.queue r).requests ++ [⟨s.brk, jobId, fd, amount⟩]
  left : (s'.queue r).resourcesLeft = (s.queue r).resourcesLeft
  table : s'.tableNodejobs = s.tableNodejobs
  out : out = []

/-- A RESERVE whose request is granted at once by the pool of `r`. -/
structure GrantedAtOnce (r : Resource) (jobId amount fd : Int) (s s' : ServerState)
    (out : List Effect) : Prop where
  before : (s.queue r).requests = []
  after : (s'.queue r).requests = []
  left : (s'.queue r).resourcesLeft = (s.queue r).resourcesLeft - amount
  record : ∃ job ∈ s'.tableNodejobs.toList, job.id = jobId ∧ job.originalSocket = fd ∧
    job.granted r = (tablahashFind s.tableNodejobs job).elim 0 (fun old => old.granted r) + amount
  out : out = [.recorded r ⟨s.brk, jobId, fd, amount⟩, .send fd (grantedLine jobId)]

/-- Nothing of the pool of `r` moves: neither its queue nor its free amount nor
what any record holds of it. -/
structure Untouched (r : Resource) (s s' : ServerState) (out : List Effect) : Prop where
  queue : s'.queue r = s.queue r
  recorded : ∀ req, Effect.recorded r req ∉ out
  granted : ∀ job ∈ s'.tableNodejobs.toList,
    job.granted r = (tablahashFind s.tableNodejobs job).elim 0 fun old => old.granted r

/-- What recording one grant does to the records. -/
theorem granted_record {t : Table jobCallbacks} {g : Grant} {job : ReceivedJob}
    (hJob : job ∈ (g.record t).toList) (r : Resource) :
    job.granted r = ((tablahashFind t job).elim 0 fun old => old.granted r) +
      if job = recordOf t g ∧ g.resource = r then g.req.amountRequested else 0 := by
  rcases mem_record.mp hJob with rfl | ⟨hOld, hOther⟩
  · have hFind : tablahashFind t (recordOf t g) =
        tablahashFind t (grantKey g.peer g.req.jobId) := by
      refine Option.ext fun e => ?_
      rw [find_eq_some_iff, find_eq_some_iff, recordOf_same]
    rw [recordOf_granted, hFind]
    simp
  · have hFind : tablahashFind t job = some job :=
      (find_eq_some_iff _ _ _).mpr ⟨hOld, jobCallbacks.same_refl job⟩
    have hNe : job ≠ recordOf t g := by
      intro hEq
      rw [← recordOf_same t g, hEq, jobCallbacks.same_refl] at hOther
      cases hOther
    rw [hFind, if_neg (fun h => hNe h.1)]
    simp

theorem untouched_of_table {r : Resource} {s s' : ServerState} {out : List Effect}
    (hQueue : s'.queue r = s.queue r) (hOut : ∀ req, Effect.recorded r req ∉ out)
    (hTable : s'.tableNodejobs = s.tableNodejobs) : Untouched r s s' out := by
  refine ⟨hQueue, hOut, ?_⟩
  intro job hJob
  rw [hTable] at hJob
  have hFind : tablahashFind s.tableNodejobs job = some job :=
    (find_eq_some_iff _ _ _).mpr ⟨hJob, jobCallbacks.same_refl job⟩
  rw [hFind]
  rfl

/-- Into a drained queue: either the queue is still blocked, or it was empty and the pool covers
the request. -/
theorem blocked_or_covered {s : ServerState} {r : Resource} (h : Blocked (s.queue r))
    (req : Request) :
    Blocked ((enqueueOnly s r req).queue r) ∨
      ((s.queue r).requests = [] ∧ req.amountRequested ≤ (s.queue r).resourcesLeft) := by
  have hQueue : (enqueueOnly s r req).queue r =
      ⟨(s.queue r).resourcesLeft, (s.queue r).requests ++ [req]⟩ := by
    simp [enqueueOnly, enqueueRequest]
  rw [hQueue]
  cases hReqs : (s.queue r).requests with
  | nil =>
      by_cases hCovered : req.amountRequested ≤ (s.queue r).resourcesLeft
      · exact .inr ⟨rfl, hCovered⟩
      · refine .inl fun req' hreq => ?_
        cases hreq
        exact Int.not_le.mp hCovered
  | cons head rest =>
      -- the old head still blocks
      exact .inl fun req' hreq => h req' (by rw [hReqs]; exact hreq)

/-- A request alone in its queue that the pool covers is granted. -/
theorem drainQueue_covered (peers : Peers) {s : ServerState} {r : Resource} {req : Request}
    (hEmpty : (s.queue r).requests = [])
    (hCovered : req.amountRequested ≤ (s.queue r).resourcesLeft) :
    drainQueue peers (enqueueOnly s r req) r =
      ({ (enqueueOnly s r req).setQueue r
            ⟨(s.queue r).resourcesLeft - req.amountRequested, []⟩ with
          tableNodejobs := Grant.record s.tableNodejobs ⟨r, req, peers r 0 req.originSocket⟩ },
        [.recorded r req, .send req.originSocket (grantedLine req.jobId)]) := by
  have hQueue : (enqueueOnly s r req).queue r = ⟨(s.queue r).resourcesLeft, [req]⟩ := by
    simp [enqueueOnly, enqueueRequest, hEmpty]
  have hLocked : drainLocked (s.queue r).resourcesLeft [req] [] =
      (⟨(s.queue r).resourcesLeft - req.amountRequested, []⟩, [req]) := by
    rw [drainLocked, if_pos hCovered, drainLocked]
  simp only [drainQueue, hQueue, hLocked]
  rfl

/-- **One RESERVE.**  At a drained provider the request of the line goes into
the queue `enqueue_jobs` picks, waits there or is granted at once, and the
other pools are not touched. -/
theorem enqueueJobs_cases (peers : Peers) {s : ServerState} (h : ∀ r, Blocked (s.queue r))
    (resource : Text) (jobId amount fd : Int) :
    (Waits (Resource.ofName resource) jobId amount fd s
        (enqueueJobs peers s resource jobId amount fd).1
        (enqueueJobs peers s resource jobId amount fd).2 ∨
      GrantedAtOnce (Resource.ofName resource) jobId amount fd s
        (enqueueJobs peers s resource jobId amount fd).1
        (enqueueJobs peers s resource jobId amount fd).2) ∧
      ∀ r, r ≠ Resource.ofName resource → Untouched r s
        (enqueueJobs peers s resource jobId amount fd).1
        (enqueueJobs peers s resource jobId amount fd).2 := by
  generalize hr : Resource.ofName resource = r
  have hOthers : ∀ r', r' ≠ r →
      (enqueueOnly s r (makeRequest s jobId fd amount)).queue r' = s.queue r' := by
    intro r' hNe
    simp [enqueueOnly, hNe]
  have hQueue : (enqueueOnly s r (makeRequest s jobId fd amount)).queue r =
      ⟨(s.queue r).resourcesLeft, (s.queue r).requests ++ [makeRequest s jobId fd amount]⟩ := by
    simp [enqueueOnly, enqueueRequest]
  have hDrain : enqueueJobs peers s resource jobId amount fd =
      drainQueue peers (enqueueOnly s r (makeRequest s jobId fd amount)) r := by
    rw [enqueueJobs, hr]
    refine reserveElements_eq_drain peers fun r' hNe => ?_
    rw [hOthers r' hNe]
    exact h r'
  rw [hDrain]
  rcases blocked_or_covered (h r) (makeRequest s jobId fd amount) with
    hBlocked | ⟨hEmpty, hCovered⟩
  · rw [drainQueue_blocked peers hBlocked]
    refine ⟨.inl ⟨by rw [hQueue]; rfl, by rw [hQueue], rfl, rfl⟩, fun r' hNe => ?_⟩
    exact untouched_of_table (hOthers r' hNe) (by simp) rfl
  · rw [drainQueue_covered peers hEmpty hCovered]
    refine ⟨.inr ⟨hEmpty, by simp, by simp [makeRequest], ?_, rfl⟩, fun r' hNe => ⟨?_, ?_, ?_⟩⟩
    · refine ⟨recordOf s.tableNodejobs ⟨r, makeRequest s jobId fd amount, peers r 0 fd⟩,
        mem_record.mpr (.inl rfl), (recordOf_key _ _).1, recordOf_originalSocket _ _, ?_⟩
      rw [granted_record (mem_record.mpr (.inl rfl))]
      simp [makeRequest]
    · simp only [setQueue_queue, hNe, if_false]
      exact hOthers r' hNe
    · intro req hreq
      simp only [List.mem_cons, Effect.recorded.injEq, List.not_mem_nil, or_false,
        reduceCtorEq] at hreq
      exact hNe hreq.1
    · intro job hJob
      rw [granted_record hJob, if_neg (fun hEq => hNe hEq.2.symm)]
      simp

/-! ## What the records of a job hold -/

/-- What the records of one job hold of a resource. -/
def heldBy (jobs : List ReceivedJob) (jobId : Int) (r : Resource) : Int :=
  totalGranted (jobs.filter fun job => decide (job.id = jobId)) r

/-- The requests that a handler recorded for one pool. -/
def recordedIn (out : List Effect) (r : Resource) : List Request :=
  out.filterMap fun
    | .recorded r' req => if r' = r then some req else none
    | _ => none

/-- The amount that a list of requests asks for. -/
def amountOf (reqs : List Request) : Int := (reqs.map fun req => req.amountRequested).sum

/-- What a handler that unlinked the records `gone` and did `out` did to the pool of `r` and
to the field of `r` in the records: the pool gets back what was unlinked and loses what was
recorded, and the records of each job gain what was recorded for the job. -/
structure Accounts (gone : List ReceivedJob) (out : List Effect) (r : Resource)
    (s s' : ServerState) : Prop where
  left : (s'.queue r).resourcesLeft =
    (s.queue r).resourcesLeft + totalGranted gone r - amountOf (recordedIn out r)
  held : ∀ jobId, heldBy s'.tableNodejobs.toList jobId r + heldBy gone jobId r =
    heldBy s.tableNodejobs.toList jobId r +
      amountOf ((recordedIn out r).filter fun req => decide (req.jobId = jobId))

theorem heldBy_nil (jobId : Int) (r : Resource) : heldBy [] jobId r = 0 := rfl

theorem heldBy_perm {jobs jobs' : List ReceivedJob} (h : jobs.Perm jobs') (jobId : Int)
    (r : Resource) : heldBy jobs jobId r = heldBy jobs' jobId r :=
  ((h.filter _).map _).sum_eq

theorem heldBy_cons (job : ReceivedJob) (jobs : List ReceivedJob) (jobId : Int) (r : Resource) :
    heldBy (job :: jobs) jobId r =
      (if job.id = jobId then job.granted r else 0) + heldBy jobs jobId r := by
  by_cases hId : job.id = jobId <;> simp [heldBy, totalGranted, hId]

/-- A grant adds its amount to the records of its job. -/
theorem heldBy_record (t : Table jobCallbacks) (g : Grant) (jobId : Int) (r : Resource) :
    heldBy (g.record t).toList jobId r = heldBy t.toList jobId r +
      if g.resource = r ∧ g.req.jobId = jobId then g.req.amountRequested else 0 := by
  have hPerm := toList_insert_perm t (recordOf t g)
  simp only [recordOf_same] at hPerm
  rw [record_eq, heldBy_perm hPerm, heldBy_cons, (recordOf_key t g).1]
  cases hFind : tablahashFind t (grantKey g.peer g.req.jobId) with
  | none =>
      rw [filter_eq_of_find_none hFind, recordOf_granted, hFind, Option.elim_none]
      by_cases hId : g.req.jobId = jobId
      · simp only [hId, if_true, and_true]
        omega
      · simp [hId]
  | some e =>
      -- the record that is replaced is one of the same job
      have hSame := ((find_eq_some_iff _ _ _).mp hFind).2
      simp only [jobCallbacks_same, grantKey, decide_eq_true_eq, Prod.mk.injEq] at hSame
      rw [heldBy_perm (toList_perm_of_find hFind), heldBy_cons, recordOf_granted, hFind,
        Option.elim_some, hSame.1]
      by_cases hId : g.req.jobId = jobId
      · simp only [hId, if_true, and_true]
        omega
      · simp [hId]

theorem heldBy_foldl_record (grants : List Grant) (jobId : Int) (r : Resource) :
    ∀ t : Table jobCallbacks, heldBy (grants.foldl Grant.record t).toList jobId r =
      heldBy t.toList jobId r +
        amountOf ((grantedReqs grants r).filter fun req => decide (req.jobId = jobId)) := by
  induction grants with
  | nil => intro t; simp [amountOf]
  | cons g grants ih =>
      intro t
      have hCons : grantedReqs (g :: grants) r =
          (if g.resource = r then [g.req] else []) ++ grantedReqs grants r := by
        by_cases hr : g.resource = r <;> simp [grantedReqs, hr]
      rw [List.foldl_cons, ih, heldBy_record, hCons, List.filter_append]
      by_cases hr : g.resource = r
      · by_cases hId : g.req.jobId = jobId
        · simp [hr, hId, amountOf]
          omega
        · simp [hr, hId, amountOf]
      · simp [hr, amountOf]

theorem heldBy_reservedOn (t : Table jobCallbacks) (fd jobId : Int) (r : Resource) :
    heldBy (removeWhere t fun job => decide (job.originalSocket = fd)).toList jobId r +
      heldBy (reservedOn t fd) jobId r = heldBy t.toList jobId r := by
  have hPerm := List.filter_append_perm
    (fun job : ReceivedJob => decide (job.originalSocket = fd)) t.toList
  have hSum := heldBy_perm hPerm jobId r
  rw [heldBy, List.filter_append, totalGranted, List.map_append, List.sum_append] at hSum
  rw [toList_removeWhere, reservedOn, heldBy, heldBy, totalGranted, totalGranted]
  omega

theorem recordedIn_effects (grants : List Grant) (r : Resource) :
    recordedIn (grants.flatMap Grant.effects) r = grantedReqs grants r := by
  induction grants with
  | nil => rfl
  | cons g grants ih =>
      have hEffects : recordedIn g.effects r = if g.resource = r then [g.req] else [] := by
        by_cases hr : g.resource = r <;> simp [recordedIn, Grant.effects, hr]
      have hTail : recordedIn (g.effects ++ grants.flatMap Grant.effects) r =
          recordedIn g.effects r ++ recordedIn (grants.flatMap Grant.effects) r := by
        simp [recordedIn]
      rw [List.flatMap_cons, hTail, hEffects, ih]
      by_cases hr : g.resource = r <;> simp [grantedReqs, hr]

/-- **Every handler keeps the books**, of each pool on its own. -/
theorem serve_accounts (s : Serving) (e : ServerEvent) :
    ∃ gone, (∀ job ∈ gone, job ∈ s.server.tableNodejobs.toList ∧ job.originalSocket = e.fd) ∧
      ∀ r, Accounts gone (serve s e).2 r s.server (serve s e).1.server := by
  obtain ⟨peers, mid, grants, hPrep, hDrain⟩ := serve_drained s e
  have hRecorded : ∀ r, recordedIn (serve s e).2 r = grantedReqs grants r := by
    intro r
    rw [hDrain.out, recordedIn_effects]
  have hHeld : ∀ r jobId, heldBy (serve s e).1.server.tableNodejobs.toList jobId r =
      heldBy mid.tableNodejobs.toList jobId r +
        amountOf ((grantedReqs grants r).filter fun req => decide (req.jobId = jobId)) := by
    intro r jobId
    rw [hDrain.table, heldBy_foldl_record]
  cases hPrep with
  | idle =>
      refine ⟨[], by simp, fun r => ⟨?_, fun jobId => ?_⟩⟩
      · rw [hDrain.left, hRecorded, totalGranted, List.map_nil, List.sum_nil, grantedAmount,
          amountOf]
        omega
      · rw [hHeld, hRecorded, heldBy_nil]
        omega
  | enqueue r' jobId amount =>
      refine ⟨[], by simp, fun r => ⟨?_, fun jobId' => ?_⟩⟩
      · have hSame : ((enqueueOnly s.server r'
            (makeRequest s.server jobId e.fd amount)).queue r).resourcesLeft =
            (s.server.queue r).resourcesLeft := by
          by_cases hr : r = r' <;> simp [enqueueOnly, enqueueRequest, hr]
        rw [hDrain.left, hSame, hRecorded, totalGranted, List.map_nil, List.sum_nil,
          grantedAmount, amountOf]
        omega
      · rw [hHeld, hRecorded, heldBy_nil]
        simp only [enqueueOnly, setQueue_tableNodejobs]
        omega
  | credit =>
      refine ⟨reservedOn s.server.tableNodejobs e.fd, fun job hJob => ?_, fun r => ⟨?_, ?_⟩⟩
      · obtain ⟨hMem, hSock⟩ := List.mem_filter.mp hJob
        exact ⟨hMem, by simpa using hSock⟩
      · rw [hDrain.left, hRecorded]
        simp only [creditOnly, grantedAmount, amountOf]
      · intro jobId
        have hGone := heldBy_reservedOn s.server.tableNodejobs e.fd jobId r
        rw [hHeld, hRecorded]
        simp only [creditOnly]
        omega

/-! ## The whole way -/

/-- The request of `type` moved the pool of that name and no other. -/
structure FollowsName (type : Text) (jobId amount fd : Int) (s s' : ServerState)
    (out : List Effect) : Prop where
  named : ∀ r : Resource, r.name = type →
    Waits r jobId amount fd s s' out ∨ GrantedAtOnce r jobId amount fd s s' out
  others : ∀ r : Resource, r.name ≠ type → Untouched r s s' out

/-- The pool a request went to is not untouched. -/
theorem not_untouched {r : Resource} {jobId amount fd : Int} {s s' : ServerState}
    {out : List Effect}
    (h : Waits r jobId amount fd s s' out ∨ GrantedAtOnce r jobId amount fd s s' out) :
    ¬ Untouched r s s' out := by
  intro hSame
  rcases h with hWaits | hGranted
  · have hReqs := hWaits.requests
    rw [hSame.queue] at hReqs
    have := congrArg List.length hReqs
    simp at this
  · refine hSame.recorded ⟨s.brk, jobId, fd, amount⟩ ?_
    rw [hGranted.out]
    exact List.mem_cons_self

theorem name_injective {r r' : Resource} (h : r.name = r'.name) : r = r' := by
  rw [← Resource.ofName_name r, h, Resource.ofName_name]

/-- The type of a destination is a C string. -/
theorem nul_not_mem_type {token ip type amt : Text}
    (h : splitDestination token = some (ip, type, amt)) : '\x00' ∉ type := by
  simp only [splitDestination, Option.bind_eq_some_iff, Option.map_eq_some_iff] at h
  obtain ⟨⟨_, rest⟩, hIp, ⟨_, rest'⟩, hRes, ⟨_, _⟩, -, hParts⟩ := h
  cases hParts
  intro hNul
  have hMem := mem_of_mem_strtok hIp (.inr (mem_of_mem_strtok hRes (.inl hNul)))
  refine nul_not_mem_strncpy 255 token ?_
  split at hMem
  · exact List.mem_of_mem_tail hMem
  · exact hMem

/-- Cutting a type to seven characters never turns it into a name. -/
theorem name_eq_strncpy {r : Resource} {type : Text} (hNul : '\x00' ∉ type) :
    r.name = strncpy 7 type ↔ r.name = type := by
  rw [strncpy, cString_eq_self hNul]
  constructor
  · intro h
    have hLen := congrArg List.length h
    have hName : r.name.length = 3 := by cases r <;> rfl
    rw [List.length_take, hName] at hLen
    rw [h, List.take_of_length_le (by omega)]
  · intro h
    rw [← h, List.take_of_length_le (Resource.name_isTypeName r).length]

/-- A RESERVE of `type` at a drained provider moves the pool of that name if
and only if there is one. -/
theorem followsName_iff (peers : Peers) {s : ServerState} (h : ∀ r, Blocked (s.queue r))
    {type : Text} (hNul : '\x00' ∉ type) (jobId amount fd : Int) :
    FollowsName type jobId amount fd s (enqueueJobs peers s (strncpy 7 type) jobId amount fd).1
        (enqueueJobs peers s (strncpy 7 type) jobId amount fd).2 ↔
      ∃ r : Resource, r.name = type := by
  obtain ⟨hTaken, hOthers⟩ := enqueueJobs_cases peers h (strncpy 7 type) jobId amount fd
  constructor
  · intro hFollows
    by_contra hNone
    exact not_untouched hTaken (hFollows.others _ fun hName => hNone ⟨_, hName⟩)
  · intro ⟨r, hName⟩
    have hPool : Resource.ofName (strncpy 7 type) = r := by
      rw [← (name_eq_strncpy hNul).mpr hName, Resource.ofName_name]
    rw [hPool] at hTaken hOthers
    refine ⟨?_, ?_⟩
    · intro r' hName'
      rw [name_injective (hName'.trans hName.symm)]
      exact hTaken
    · intro r' hName'
      refine hOthers r' ?_
      rintro rfl
      exact hName' hName

/-! ## After the RESERVE -/

/-- A later handler meets the request at the pool of its name only, keeps it there until it
records it, and keeps the books of every pool. -/
structure KeepsName (type : Text) (req : Request) (s : Serving) (e : ServerEvent) : Prop where
  waits : ∀ r, ∀ x ∈ (s.server.queue r).requests, x.addr = req.addr → r.name = type ∧ x = req
  stays : ∀ r, req ∈ (s.server.queue r).requests →
    req ∈ ((serve s e).1.server.queue r).requests ∨ Effect.recorded r req ∈ (serve s e).2
  granted : ∀ r x, Effect.recorded r x ∈ (serve s e).2 → x.addr = req.addr →
    r.name = type ∧ x = req
  accounts : ∃ gone, (∀ job ∈ gone, job ∈ s.server.tableNodejobs.toList ∧
    job.originalSocket = e.fd) ∧ ∀ r, Accounts gone (serve s e).2 r s.server (serve s e).1.server

/-- The request with this address is in this pool, and is this one. -/
def Placed (r : Resource) (req : Request) (s : ServerState) : Prop :=
  req.addr < s.brk ∧ ∀ r', ∀ x ∈ (s.queue r').requests, x.addr = req.addr → r' = r ∧ x = req

theorem Placed.serve {r : Resource} {req : Request} {s : Serving} (h : Placed r req s.server)
    (e : ServerEvent) :
    Placed r req (serveStep s e).server ∧
      ∀ r' x, Effect.recorded r' x ∈ (serve s e).2 → x.addr = req.addr → r' = r ∧ x = req := by
  obtain ⟨hQueued, hRecorded⟩ := serve_requests
    (P := fun r' x => x.addr = req.addr → r' = r ∧ x = req) s e h.2 (by
      -- a request made now has the next address
      intro fd text peers jobId resource amount _ _ hAddr
      have hLt := h.1
      rw [← hAddr] at hLt
      exact absurd hLt (Nat.lt_irrefl _))
  exact ⟨⟨Nat.lt_of_lt_of_le h.1 (brk_serve s e), hQueued⟩, hRecorded⟩

/-- What a handler does not grant stays queued. -/
theorem serve_stays (s : Serving) (e : ServerEvent) {r : Resource} {req : Request}
    (h : req ∈ (s.server.queue r).requests) :
    req ∈ ((serve s e).1.server.queue r).requests ∨ Effect.recorded r req ∈ (serve s e).2 := by
  obtain ⟨peers, mid, grants, hPrep, hDrain⟩ := serve_drained s e
  have hMid : req ∈ (mid.queue r).requests := by
    cases hPrep with
    | idle => exact h
    | credit => exact h
    | enqueue r' jobId amount =>
        by_cases hr : r = r'
        · subst hr
          simpa [enqueueOnly, enqueueRequest] using .inl h
        · simpa [enqueueOnly, hr] using h
  obtain ⟨served, hCut, hPerm⟩ := hDrain.queues r
  rw [hCut] at hMid
  rcases List.mem_append.mp hMid with hServed | hLeft
  · obtain ⟨g, hg, hr, hReq⟩ := mem_grantedReqs.mp (hPerm.mem_iff.mp hServed)
    exact .inr ((hDrain.recorded_iff r req).mpr ⟨g, hg, hr, hReq⟩)
  · exact .inl hLeft

/-- Requests in the queues were made before. -/
theorem queued_below (capacity : Resource → Int) (es : List ServerEvent) :
    ∀ r, ∀ req ∈ ((run serveStep (Serving.init capacity) es).server.queue r).requests,
      req.addr < (run serveStep (Serving.init capacity) es).server.brk := by
  refine run_invariant_always
    (fun s : Serving => ∀ r, ∀ req ∈ (s.server.queue r).requests, req.addr < s.server.brk) ?_ ?_ es
  · intro s e hs
    refine (serve_requests (P := fun _ req => req.addr < (serveStep s e).server.brk) s e
      (fun r req hreq => Nat.lt_of_lt_of_le (hs r req hreq) (brk_serve s e)) ?_).1
    rintro fd text peers jobId resource amount rfl hMsg
    obtain ⟨⟨grants, hDrain⟩, -⟩ := enqueueJobs_drained peers s.server resource jobId amount fd
    simp only [serveStep, serve, serverMessage, hMsg, hDrain.brk, makeRequest, enqueueOnly]
    exact Nat.lt_succ_self _
  · simp [Serving.init, ServerState.init, makeQueue]

/-- The request of a RESERVE that a reachable provider handles is placed in its pool. -/
theorem placed_reserve (capacity : Resource → Int) (es : List ServerEvent) (peers : Peers)
    (fd : Int) {line resource : Text} {jobId amount : Int}
    (hLine : parseRemote line = .reserve jobId resource amount) :
    Placed (Resource.ofName resource)
      ⟨(run serveStep (Serving.init capacity) es).server.brk, jobId, fd, amount⟩
      (serveStep (run serveStep (Serving.init capacity) es) (.line fd line peers)).server := by
  have hBelow := queued_below capacity es
  generalize run serveStep (Serving.init capacity) es = s at hBelow ⊢
  refine ⟨?_, (serve_requests (P := fun r x => x.addr = s.server.brk →
    r = Resource.ofName resource ∧ x = ⟨s.server.brk, jobId, fd, amount⟩) s _ ?_ ?_).1⟩
  · obtain ⟨⟨grants, hDrain⟩, -⟩ := enqueueJobs_drained peers s.server resource jobId amount fd
    simp only [serveStep, serve, serverMessage, hLine, hDrain.brk, enqueueOnly]
    exact Nat.lt_succ_self _
  · intro r x hx hAddr
    exact absurd hAddr (Nat.ne_of_lt (hBelow r x hx))
  · rintro fd' text peers' jobId' resource' amount' ⟨⟩ hMsg -
    rw [hLine] at hMsg
    cases hMsg
    exact ⟨rfl, rfl⟩

/-- **A request keeps to its pool**, in every run after the RESERVE. -/
theorem Placed.keepsName {r : Resource} {req : Request} {s : Serving} (h : Placed r req s.server)
    (later : List ServerEvent) (e : ServerEvent) :
    KeepsName r.name req (run serveStep s later) e := by
  have hPlaced : Placed r req (run serveStep s later).server :=
    run_invariant_always (fun s : Serving => Placed r req s.server)
      (fun s e hs => (hs.serve e).1) h later
  refine ⟨fun r' x hx hAddr => ?_, fun r' hMem => serve_stays _ e hMem,
    fun r' x hRec hAddr => ?_, serve_accounts _ e⟩
  · obtain ⟨rfl, rfl⟩ := hPlaced.2 r' x hx hAddr
    exact ⟨rfl, rfl⟩
  · obtain ⟨rfl, rfl⟩ := (hPlaced.serve e).2 r' x hRec hAddr
    exact ⟨rfl, rfl⟩

/-- **The pool debited is the one named, for the three names.**  Take a token
of a JOB_REQUEST line that `erlang_to_C` accepts, a job whose next request it
is, and any state a provider can be in.  `send_request` writes one line; what
the provider does with it moves the pool whose name is the token's type, with
the job's id and the token's amount, and no other pool, and so does every later
handler of any run that goes on from there, if and only if the type is `cpu`, `mem`
or `gpu`. -/
theorem pool_is_the_named_one {instruction jobIdText token ip type amt : Text}
    {destinations : List Text}
    (hParse : parseErlang instruction = .jobRequest jobIdText destinations)
    (hToken : token ∈ destinations) (hSplit : splitDestination token = some (ip, type, amt))
    {nodes : Table nodeCallbacks} {req : PendingResource}
    (hReq : parseDestination nodes token = some req)
    {client : ClientState} {out : Int} {job : LocalJob} {rest : List PendingResource}
    (hOwner : client.owner out = some job) (hId : job.jobId = atoi jobIdText)
    (hNext : job.nextReq = req :: rest)
    (capacity : Resource → Int) (es : List ServerEvent) (peers : Peers) (fd : Int) :
    ∃ line, (sendRequest client out).2 = [.send out line, .epollMod out] ∧
      (FollowsName type (atoi jobIdText) (atoi amt) fd
            (run serveStep (Serving.init capacity) es).server
            (serverMessage peers (run serveStep (Serving.init capacity) es).server fd line).1
            (serverMessage peers (run serveStep (Serving.init capacity) es).server fd line).2 ∧
          (∀ later e, KeepsName type
            ⟨(run serveStep (Serving.init capacity) es).server.brk, atoi jobIdText, fd, atoi amt⟩
            (run serveStep (Serving.init capacity) (es ++ .line fd line peers :: later)) e) ↔
        ∃ r : Resource, r.name = type) := by
  obtain ⟨hType, hAmount⟩ := parseDestination_wellFormed (jobRequest_words hParse token hToken) hReq
  have hFields : req.type = strncpy 7 type ∧ req.amount = atoi amt := by
    rw [parseDestination, hSplit, Option.map_some, Option.some.injEq] at hReq
    rw [← hReq]
    exact ⟨rfl, rfl⟩
  have hLine : parseRemote (reserveLine job.jobId req.type req.amount) =
      .reserve (atoi jobIdText) (strncpy 7 type) (atoi amt) := by
    rw [hId, parseRemote_reserveLine (atoi_isInt jobIdText) hAmount hType, hFields.1, hFields.2]
  have hNul := nul_not_mem_type hSplit
  refine ⟨reserveLine job.jobId req.type req.amount, ?_, ?_⟩
  · simp only [sendRequest, hOwner, hNext]
  · have hArrival := followsName_iff peers (blocked_run capacity es) hNul (atoi jobIdText)
      (atoi amt) fd
    simp only [serverMessage, hLine]
    refine ⟨fun h => hArrival.mp h.1, fun hNamed => ⟨hArrival.mpr hNamed, fun later e => ?_⟩⟩
    obtain ⟨r, rfl⟩ := hNamed
    have hPlaced := placed_reserve capacity es peers fd hLine
    rw [← (name_eq_strncpy hNul).mpr rfl, Resource.ofName_name] at hPlaced
    rw [run_append, run_cons]
    exact hPlaced.keepsName later e

/-- The requester after a JOB_REQUEST line whose dial gave descriptor 5. -/
def asking (instruction : Text) : ClientState :=
  (clientStep .init (.erlang instruction 0 (tablahashCreate nodeCallbacks) (.connected 5))).1

/-- A line that asks for memory. -/
def memoryLine : Text := "JOB_REQUEST 7 @10.0.0.1:mem:16\n".toList

/-- Its only destination. -/
def memoryToken : Text := "@10.0.0.1:mem:16".toList

/-- A provider whose memory a peer on descriptor 8 has taken. -/
def takenMemory : List ServerEvent :=
  [.accept 8, .line 8 "RESERVE 3 mem 8192\n".toList noPeers, .accept 9]

/-- The line that `send_request` writes for the token. -/
def memoryReserve : Text := "RESERVE 7 mem 16\n".toList

/-- That peer gives the memory back. -/
def memoryReturned : ServerEvent := .line 8 "RELEASE 3 mem 8192\n".toList noPeers

/-- The conditions of `pool_is_the_named_one` on that line, at that provider: the request
waits, and the release records it. -/
theorem pool_is_the_named_one_memory :
    (sendRequest (asking memoryLine) 5).2 = [.send 5 memoryReserve, .epollMod 5] ∧
      FollowsName "mem".toList 7 16 9
        (run serveStep (Serving.init fun r => localCapacity r) takenMemory).server
        (serverMessage noPeers
          (run serveStep (Serving.init fun r => localCapacity r) takenMemory).server 9
          memoryReserve).1
        (serverMessage noPeers
          (run serveStep (Serving.init fun r => localCapacity r) takenMemory).server 9
          memoryReserve).2 ∧
      KeepsName "mem".toList ⟨1, 7, 9, 16⟩
        (run serveStep (Serving.init fun r => localCapacity r)
          (takenMemory ++ [.line 9 memoryReserve noPeers])) memoryReturned ∧
      Effect.recorded .mem ⟨1, 7, 9, 16⟩ ∈
        (serve (run serveStep (Serving.init fun r => localCapacity r)
          (takenMemory ++ [.line 9 memoryReserve noPeers])) memoryReturned).2 := by
  have hParse : parseErlang memoryLine = .jobRequest "7".toList [memoryToken] := by
    decide +kernel
  have hSplit : splitDestination memoryToken =
      some ("10.0.0.1".toList, "mem".toList, "16".toList) := by decide +kernel
  have hReq : parseDestination (tablahashCreate nodeCallbacks) memoryToken =
      some ⟨"mem".toList, 16, "10.0.0.1".toList, 4200, -1⟩ := by decide +kernel
  have hOwner : (asking memoryLine).owner 5 =
      some ⟨0, 7, 5, [⟨"mem".toList, 16, "10.0.0.1".toList, 4200, -1⟩], [], 0⟩ := by
    decide +kernel
  have hId : atoi "7".toList = 7 := by decide
  have hAmount : atoi "16".toList = 16 := by decide
  have hLine : (sendRequest (asking memoryLine) 5).2 =
      [.send 5 memoryReserve, .epollMod 5] := by decide +kernel
  have hBrk : (run serveStep (Serving.init fun r => localCapacity r)
      takenMemory).server.brk = 1 := by decide +kernel
  obtain ⟨line, hSent, hIff⟩ := pool_is_the_named_one hParse (List.mem_singleton_self _) hSplit
    hReq hOwner hId.symm rfl (fun r => localCapacity r) takenMemory noPeers 9
  obtain rfl : memoryReserve = line := by simpa [hLine] using hSent
  rw [hId, hAmount, hBrk] at hIff
  obtain ⟨hFollows, hKeeps⟩ := hIff.mpr ⟨.mem, rfl⟩
  exact ⟨hLine, hFollows, hKeeps [] memoryReturned, by decide +kernel⟩

/-- A line that asks for a resource no node has. -/
def diskLine : Text := "JOB_REQUEST 7 @10.0.0.1:disk:1\n".toList

/-- `disk` names no pool; the line is accepted and sent, and the provider takes
the unit from its gpu pool. -/
theorem unknown_type_takes_gpu :
    (∀ r : Resource, r.name ≠ "disk".toList) ∧
      splitDestination "@10.0.0.1:disk:1".toList =
        some ("10.0.0.1".toList, "disk".toList, "1".toList) ∧
      (sendRequest (asking diskLine) 5).2 =
        [.send 5 "RESERVE 7 disk 1\n".toList, .epollMod 5] ∧
      ((ServerState.init fun r => localCapacity r).queue .gpu).resourcesLeft = 1 ∧
      ((serverMessage noPeers (ServerState.init fun r => localCapacity r) 9
        "RESERVE 7 disk 1\n".toList).1.queue .gpu).resourcesLeft = 0 ∧
      ((serverMessage noPeers (ServerState.init fun r => localCapacity r) 9
        "RESERVE 7 disk 1\n".toList).1.tableNodejobs.toList.map
          fun job => job.granted .gpu) = [1] := by
  decide +kernel

end ResourceAgent.Ports.NamedPool
