import ResourceAgent.Ports.ServerRun
import ResourceAgent.Ports.TableMap

/-!
# What a release does

`release_client_by_fd` is run by a peer's RELEASE and again by the end of its
connection.  Its effect is exact only if the key of a record tells sockets
apart and no second request of the socket is in a queue, so the runs of this
module are those the repository's own client produces: every connection
carries at most one RESERVE and is not closed while it is queued, and
`getpeername` names the peers of open connections, no two of them alike.
`Hosting` adds to the server the addresses and the connections that have asked.

`Settled` is the invariant: each open connection has at most one request or one
record, and a record carries the address of its socket.  So a drain only makes
new records (`records_drained`), and `release_exact` reads the effect of a
release off that.
-/

namespace ResourceAgent.Ports.Release

open ResourceAgent.Ports.HashTable
open ResourceAgent.Ports.Records
open ResourceAgent.Ports.Wire
open ResourceAgent.Ports.Reservation
open ResourceAgent.Ports.ServerRun
open ResourceAgent.Ports.TableMap
open ResourceAgent.Verified.CText
open ResourceAgent.Verified.Runs

/-! ## Connections -/

/-- The server side, the peer behind each descriptor, and the open connections
that have carried a RESERVE. -/
structure Hosting where
  serving : Serving
  address : Int → Addr
  asked : List Int

/-- A handler of the server side; a new connection comes with its peer. -/
inductive PeerEvent where
  | accept (fd : Int) (addr : Addr)
  | line (fd : Int) (text : Text) (peers : Peers)
  | disconnect (fd : Int) (peers : Peers)

/-- The handler itself. -/
def PeerEvent.handler : PeerEvent → ServerEvent
  | .accept fd _ => .accept fd
  | .line fd text peers => .line fd text peers
  | .disconnect fd peers => .disconnect fd peers

/-- The line is a RESERVE. -/
def isReserve (text : Text) : Bool :=
  match parseRemote text with
  | .reserve _ _ _ => true
  | _ => false

/-- Run one handler. -/
def host (s : Hosting) (e : PeerEvent) : Hosting where
  serving := serveStep s.serving e.handler
  address :=
    match e with
    | .accept fd addr => fun x => if x = fd then addr else s.address x
    | _ => s.address
  asked :=
    match e with
    | .accept _ _ => s.asked
    | .line fd text _ => if isReserve text then fd :: s.asked else s.asked
    | .disconnect fd _ => s.asked.filter fun x => decide (x ≠ fd)

/-- Nobody connected. -/
def Hosting.init (capacity : Resource → Int) : Hosting where
  serving := Serving.init capacity
  address _ := (0, 0)
  asked := []

/-- `getpeername` succeeds on the open connections. -/
def Answers (s : Hosting) (peers : Peers) : Prop :=
  ∀ r k, ∀ fd ∈ s.serving.opens, peers r k fd = some (s.address fd)

/-- No request of `fd` waits. -/
def Idle (s : ServerState) (fd : Int) : Prop :=
  ∀ r, ∀ req ∈ (s.queue r).requests, req.originSocket ≠ fd

/-- The repository's client outside timeouts: a connection carries one RESERVE
and is not closed while it is queued; open connections have distinct peers. -/
def SingleRequest (s : Hosting) : PeerEvent → Prop
  | .accept fd addr =>
      fd ∉ s.serving.opens ∧ ∀ x ∈ s.serving.opens, s.address x ≠ addr
  | .line fd text peers =>
      fd ∈ s.serving.opens ∧ (isReserve text = true → fd ∉ s.asked) ∧ Answers s peers
  | .disconnect fd peers =>
      fd ∈ s.serving.opens ∧ Idle s.serving.server fd ∧ Answers s peers

/-! ## One request or one record for each connection -/

/-- The requests of `fd` in the three queues. -/
def waiting (s : ServerState) (fd : Int) : Nat :=
  (s.queue .cpu).requests.countP (fun req => decide (req.originSocket = fd)) +
    (s.queue .mem).requests.countP (fun req => decide (req.originSocket = fd)) +
    (s.queue .gpu).requests.countP (fun req => decide (req.originSocket = fd))

/-- The records of `fd`. -/
def holding (t : Table jobCallbacks) (fd : Int) : Nat :=
  t.toList.countP fun job => decide (job.originalSocket = fd)

/-- The grants to `fd`. -/
def grantedTo (grants : List Grant) (fd : Int) : Nat :=
  grants.countP fun g => decide (g.req.originSocket = fd)

/-- Every connection has at most one request or record, records carry the
address of their socket, and only connections that have asked wait or hold. -/
structure Settled (opens asked : List Int) (address : Int → Addr) (s : ServerState) :
    Prop where
  queued : ∀ r, ∀ req ∈ (s.queue r).requests,
    req.originSocket ∈ opens ∧ req.originSocket ∈ asked
  recorded : ∀ job ∈ s.tableNodejobs.toList,
    job.originalSocket ∈ opens ∧ job.originalSocket ∈ asked ∧
      (job.ip, job.port) = address job.originalSocket
  once : ∀ fd, waiting s fd + holding s.tableNodejobs fd ≤ 1

/-- The record `record_granted` makes when there is none under its key. -/
def newRecord (g : Grant) : ReceivedJob :=
  { grantKey g.peer g.req.jobId with originalSocket := g.req.originSocket }.grant
    g.resource g.req.amountRequested

@[simp] theorem newRecord_originalSocket (g : Grant) :
    (newRecord g).originalSocket = g.req.originSocket := by
  simp [newRecord]

theorem newRecord_address (g : Grant) :
    ((newRecord g).ip, (newRecord g).port) = g.peer.getD (0, 0) := by
  simp [newRecord, grantKey]

theorem grantedTo_cons (g : Grant) (grants : List Grant) (fd : Int) :
    grantedTo (g :: grants) fd =
      grantedTo grants fd + if g.req.originSocket = fd then 1 else 0 := by
  by_cases hfd : g.req.originSocket = fd
  · simp [grantedTo, hfd]
  · simp [grantedTo, hfd]

/-- Grants counted by resource. -/
theorem countP_grantedReqs (grants : List Grant) (fd : Int) :
    (grantedReqs grants .cpu).countP (fun req => decide (req.originSocket = fd)) +
        (grantedReqs grants .mem).countP (fun req => decide (req.originSocket = fd)) +
        (grantedReqs grants .gpu).countP (fun req => decide (req.originSocket = fd)) =
      grantedTo grants fd := by
  induction grants with
  | nil => rfl
  | cons g grants ih =>
      have hCons : ∀ r, (grantedReqs (g :: grants) r).countP
            (fun req => decide (req.originSocket = fd)) =
          (grantedReqs grants r).countP (fun req => decide (req.originSocket = fd)) +
            if g.resource = r ∧ g.req.originSocket = fd then 1 else 0 := by
        intro r
        by_cases hr : g.resource = r <;> by_cases hfd : g.req.originSocket = fd <;>
          simp [grantedReqs, hr, hfd]
      rw [hCons, hCons, hCons, grantedTo_cons, ← ih]
      cases g.resource <;> by_cases hfd : g.req.originSocket = fd <;> simp [hfd] <;> omega

/-- A drain turns waiting requests into grants. -/
theorem waiting_drained {peers : Peers} {s s' : ServerState} {out : List Effect}
    {grants : List Grant} (h : Drained peers s s' out grants) (fd : Int) :
    waiting s fd = grantedTo grants fd + waiting s' fd := by
  have hQueue : ∀ r, (s.queue r).requests.countP (fun req => decide (req.originSocket = fd)) =
      (grantedReqs grants r).countP (fun req => decide (req.originSocket = fd)) +
        (s'.queue r).requests.countP (fun req => decide (req.originSocket = fd)) := by
    intro r
    obtain ⟨served, hCut, hPerm⟩ := h.queues r
    rw [hCut, List.countP_append, hPerm.countP_eq]
  have hSum := countP_grantedReqs grants fd
  simp only [waiting, hQueue]
  omega

/-- Recording a grant whose socket has no record makes a new one: records with
the key of the grant are records of its socket. -/
theorem record_new {t : Table jobCallbacks} {g : Grant} {opens : List Int}
    {address : Int → Addr}
    (hInj : ∀ x ∈ opens, ∀ y ∈ opens, address x = address y → x = y)
    (hTable : ∀ job ∈ t.toList, job.originalSocket ∈ opens ∧
      (job.ip, job.port) = address job.originalSocket)
    (hOpen : g.req.originSocket ∈ opens) (hPeer : g.peer = some (address g.req.originSocket))
    (hNone : holding t g.req.originSocket = 0) :
    (g.record t).toList.Perm (newRecord g :: t.toList) := by
  have hFind : tablahashFind t (grantKey g.peer g.req.jobId) = none := by
    rw [find_eq_none_iff]
    intro job hJob
    by_contra hSame
    rw [Bool.not_eq_false, jobCallbacks_same, decide_eq_true_eq, grantKey, hPeer] at hSame
    simp only [Option.getD_some, Prod.mk.injEq] at hSame
    obtain ⟨hSocket, hAddr⟩ := hTable job hJob
    have hEq : address job.originalSocket = address g.req.originSocket := by
      rw [← hAddr, hSame.2.1, hSame.2.2]
    have hZero := List.countP_eq_zero.mp hNone job hJob
    exact hZero (decide_eq_true (hInj _ hSocket _ hOpen hEq))
  have hNew : recordOf t g = newRecord g := by
    rw [recordOf, hFind, newRecord, Option.getD_none]
  have hPerm := toList_insert_perm t (recordOf t g)
  simp only [recordOf_same] at hPerm
  rw [filter_eq_of_find_none hFind, hNew] at hPerm
  rw [record_eq, hNew]
  exact hPerm

/-- **A drain only makes new records.**  While every socket has at most one
request or record, the records of a drain are added to those that are there. -/
theorem records_drained {opens : List Int} {address : Int → Addr} {grants : List Grant}
    (hInj : ∀ x ∈ opens, ∀ y ∈ opens, address x = address y → x = y)
    (hGrants : ∀ g ∈ grants, g.req.originSocket ∈ opens ∧
      g.peer = some (address g.req.originSocket)) :
    ∀ t : Table jobCallbacks,
      (∀ job ∈ t.toList, job.originalSocket ∈ opens ∧
        (job.ip, job.port) = address job.originalSocket) →
      (∀ fd, grantedTo grants fd + holding t fd ≤ 1) →
      (grants.foldl Grant.record t).toList.Perm (grants.map newRecord ++ t.toList) := by
  induction grants with
  | nil =>
      intro t _ _
      exact List.Perm.refl _
  | cons g grants ih =>
      intro t hTable hOnce
      obtain ⟨hOpen, hPeer⟩ := hGrants g (by simp)
      have hNone : holding t g.req.originSocket = 0 := by
        have := hOnce g.req.originSocket
        rw [grantedTo_cons, if_pos rfl] at this
        omega
      have hPerm := record_new hInj hTable hOpen hPeer hNone
      have hRest := ih (fun x hx => hGrants x (by simp [hx])) (g.record t) ?_ ?_
      · rw [List.foldl_cons]
        refine hRest.trans ?_
        rw [List.map_cons, List.cons_append]
        exact (List.Perm.append_left _ hPerm).trans List.perm_middle
      · intro job hJob
        rcases List.mem_cons.mp (hPerm.subset hJob) with rfl | hOld
        · rw [newRecord_originalSocket, newRecord_address, hPeer]
          exact ⟨hOpen, rfl⟩
        · exact hTable job hOld
      · intro fd
        have := hOnce fd
        rw [grantedTo_cons] at this
        rw [holding, hPerm.countP_eq, List.countP_cons, newRecord_originalSocket]
        simp only [decide_eq_true_eq]
        rw [holding] at this
        omega

/-! ## The invariant -/

section

variable {opens asked : List Int} {address : Int → Addr} {s mid s' : ServerState}

/-- The records after a drain of a settled state. -/
theorem Settled.records {peers : Peers} {out : List Effect} {grants : List Grant}
    (h : Settled opens asked address mid)
    (hInj : ∀ x ∈ opens, ∀ y ∈ opens, address x = address y → x = y)
    (hPeers : ∀ r k, ∀ fd ∈ opens, peers r k fd = some (address fd))
    (hDrain : Drained peers mid s' out grants) :
    s'.tableNodejobs.toList.Perm (grants.map newRecord ++ mid.tableNodejobs.toList) := by
  rw [hDrain.table]
  refine records_drained hInj ?_ mid.tableNodejobs ?_ ?_
  · intro g hg
    have hOpen := (h.queued g.resource g.req (hDrain.mem_grants hg)).1
    obtain ⟨k, hPeer⟩ := hDrain.peer g hg
    exact ⟨hOpen, hPeer.trans (hPeers g.resource k _ hOpen)⟩
  · intro job hJob
    obtain ⟨hOpen, -, hAddr⟩ := h.recorded job hJob
    exact ⟨hOpen, hAddr⟩
  · intro fd
    have hOnce := h.once fd
    rw [waiting_drained hDrain fd] at hOnce
    omega

theorem Settled.drained {peers : Peers} {out : List Effect} {grants : List Grant}
    (h : Settled opens asked address mid)
    (hInj : ∀ x ∈ opens, ∀ y ∈ opens, address x = address y → x = y)
    (hPeers : ∀ r k, ∀ fd ∈ opens, peers r k fd = some (address fd))
    (hDrain : Drained peers mid s' out grants) : Settled opens asked address s' := by
  have hPerm := h.records hInj hPeers hDrain
  refine ⟨fun r req hreq => h.queued r req (hDrain.mem_queue hreq), ?_, ?_⟩
  · intro job hJob
    rcases List.mem_append.mp (hPerm.subset hJob) with hNew | hOld
    · obtain ⟨g, hg, rfl⟩ := List.mem_map.mp hNew
      obtain ⟨hOpen, hAsked⟩ := h.queued g.resource g.req (hDrain.mem_grants hg)
      obtain ⟨k, hPeer⟩ := hDrain.peer g hg
      rw [newRecord_originalSocket, newRecord_address, hPeer, hPeers _ k _ hOpen]
      exact ⟨hOpen, hAsked, rfl⟩
    · exact h.recorded job hOld
  · intro fd
    have hOnce := h.once fd
    have hHeld : holding s'.tableNodejobs fd =
        grantedTo grants fd + holding mid.tableNodejobs fd := by
      rw [holding, hPerm.countP_eq, List.countP_append, List.countP_map]
      simp [grantedTo, holding, Function.comp_def]
    rw [waiting_drained hDrain fd] at hOnce
    omega

theorem Settled.credit (h : Settled opens asked address s) (fd : Int) :
    Settled opens asked address (creditOnly s fd) := by
  have hMem : ∀ job ∈ (creditOnly s fd).tableNodejobs.toList, job ∈ s.tableNodejobs.toList := by
    intro job hJob
    rw [creditOnly, toList_removeWhere] at hJob
    exact List.mem_of_mem_filter hJob
  refine ⟨h.queued, fun job hJob => h.recorded job (hMem job hJob), ?_⟩
  intro x
  have hLess : holding (creditOnly s fd).tableNodejobs x ≤ holding s.tableNodejobs x := by
    rw [holding, creditOnly, toList_removeWhere]
    exact List.filter_sublist.countP_le
  have hSame : waiting (creditOnly s fd) x = waiting s x := rfl
  have := h.once x
  omega

theorem Settled.release {peers : Peers} (h : Settled opens asked address s)
    (hInj : ∀ x ∈ opens, ∀ y ∈ opens, address x = address y → x = y)
    (hPeers : ∀ r k, ∀ fd ∈ opens, peers r k fd = some (address fd)) (fd : Int) :
    Settled opens asked address (releaseClientByFd peers s fd).1 := by
  rcases releaseClientByFd_cases peers s fd with ⟨-, hEq⟩ | ⟨⟨grants, hDrain⟩, -⟩
  · rw [hEq]
    exact h
  · exact (h.credit fd).drained hInj hPeers hDrain

/-- A connection that has not asked has neither a request nor a record. -/
theorem Settled.nothing (h : Settled opens asked address s) {fd : Int} (hNew : fd ∉ asked) :
    waiting s fd + holding s.tableNodejobs fd = 0 := by
  have hQueue : ∀ r,
      (s.queue r).requests.countP (fun req => decide (req.originSocket = fd)) = 0 := by
    intro r
    refine List.countP_eq_zero.mpr fun req hreq hfd => ?_
    have hAsked := (h.queued r req hreq).2
    rw [of_decide_eq_true hfd] at hAsked
    exact hNew hAsked
  have hTable : holding s.tableNodejobs fd = 0 := by
    refine List.countP_eq_zero.mpr fun job hJob hfd => ?_
    have hAsked := (h.recorded job hJob).2.1
    rw [of_decide_eq_true hfd] at hAsked
    exact hNew hAsked
  rw [waiting, hQueue, hQueue, hQueue, hTable]

theorem waiting_enqueue (s : ServerState) (r : Resource) (req : Request) (fd : Int) :
    waiting (enqueueOnly s r req) fd =
      waiting s fd + if req.originSocket = fd then 1 else 0 := by
  by_cases hfd : req.originSocket = fd <;> cases r <;>
    simp [waiting, enqueueOnly, enqueueRequest, hfd] <;> omega

theorem Settled.enqueue (h : Settled opens asked address s) {fd : Int} (hOpen : fd ∈ opens)
    (hNew : fd ∉ asked) (r : Resource) (jobId amount : Int) :
    Settled opens (fd :: asked) address (enqueueOnly s r (makeRequest s jobId fd amount)) := by
  refine ⟨?_, ?_, ?_⟩
  · intro r' req hreq
    by_cases hr : r' = r
    · simp only [enqueueOnly, setQueue_queue, hr, if_true, enqueueRequest, List.mem_append,
        List.mem_singleton] at hreq
      rcases hreq with hreq | rfl
      · obtain ⟨hIn, hAsked⟩ := h.queued r req hreq
        exact ⟨hIn, List.mem_cons_of_mem _ hAsked⟩
      · exact ⟨hOpen, List.mem_cons_self⟩
    · simp only [enqueueOnly, setQueue_queue, hr, if_false] at hreq
      obtain ⟨hIn, hAsked⟩ := h.queued r' req hreq
      exact ⟨hIn, List.mem_cons_of_mem _ hAsked⟩
  · intro job hJob
    obtain ⟨hIn, hAsked, hAddr⟩ := h.recorded job hJob
    exact ⟨hIn, List.mem_cons_of_mem _ hAsked, hAddr⟩
  · intro x
    rw [waiting_enqueue]
    show _ + holding s.tableNodejobs x ≤ 1
    have hOnce := h.once x
    by_cases hx : (makeRequest s jobId fd amount).originSocket = x
    · have hZero := h.nothing hNew
      have hfd : fd = x := hx
      rw [hfd] at hZero
      rw [if_pos hx]
      omega
    · rw [if_neg hx]
      omega

/-- What is open, asked and named may change where nothing waits or holds. -/
theorem Settled.congr {opens' asked' : List Int} {address' : Int → Addr}
    (h : Settled opens asked address s)
    (hKeep : ∀ fd, 0 < waiting s fd + holding s.tableNodejobs fd →
      fd ∈ opens' ∧ fd ∈ asked' ∧ address' fd = address fd) :
    Settled opens' asked' address' s := by
  refine ⟨?_, ?_, h.once⟩
  · intro r req hreq
    have hPos : 0 < waiting s req.originSocket := by
      have hCount : 0 < (s.queue r).requests.countP
          (fun x => decide (x.originSocket = req.originSocket)) :=
        List.countP_pos_iff.mpr ⟨req, hreq, by simp⟩
      cases r <;> simp only [waiting] <;> omega
    obtain ⟨hOpen, hAsked, -⟩ := hKeep req.originSocket (by omega)
    exact ⟨hOpen, hAsked⟩
  · intro job hJob
    have hPos : 0 < holding s.tableNodejobs job.originalSocket :=
      List.countP_pos_iff.mpr ⟨job, hJob, by simp⟩
    obtain ⟨hOpen, hAsked, hAddr⟩ := hKeep job.originalSocket (by omega)
    rw [hAddr]
    exact ⟨hOpen, hAsked, (h.recorded job hJob).2.2⟩

/-- Who waits or holds is open and has asked. -/
theorem Settled.present (h : Settled opens asked address s) {fd : Int}
    (hPos : 0 < waiting s fd + holding s.tableNodejobs fd) : fd ∈ opens ∧ fd ∈ asked := by
  have hQueue : ∀ r, 0 < (s.queue r).requests.countP
      (fun req => decide (req.originSocket = fd)) → fd ∈ opens ∧ fd ∈ asked := by
    intro r hCount
    obtain ⟨req, hreq, hfd⟩ := List.countP_pos_iff.mp hCount
    rw [← of_decide_eq_true hfd]
    exact h.queued r req hreq
  by_cases hTable : 0 < holding s.tableNodejobs fd
  · obtain ⟨job, hJob, hfd⟩ := List.countP_pos_iff.mp hTable
    obtain ⟨hOpen, hAsked, -⟩ := h.recorded job hJob
    rw [← of_decide_eq_true hfd]
    exact ⟨hOpen, hAsked⟩
  · have hWaits : 0 < waiting s fd := by omega
    rw [waiting] at hWaits
    by_cases hCpu : 0 < (s.queue .cpu).requests.countP
        (fun req => decide (req.originSocket = fd))
    · exact hQueue .cpu hCpu
    · by_cases hMem : 0 < (s.queue .mem).requests.countP
          (fun req => decide (req.originSocket = fd))
      · exact hQueue .mem hMem
      · exact hQueue .gpu (by omega)

/-- After a release of an idle socket nothing of it is left. -/
theorem nothing_after_release (peers : Peers) {fd : Int} (hIdle : Idle s fd) :
    waiting (releaseClientByFd peers s fd).1 fd = 0 ∧
      reservedOn (releaseClientByFd peers s fd).1.tableNodejobs fd = [] := by
  have hQueues : ∀ {s' : ServerState},
      (∀ r, ∀ req ∈ (s'.queue r).requests, req ∈ (s.queue r).requests) → waiting s' fd = 0 := by
    intro s' hSub
    have hNone : ∀ r, (s'.queue r).requests.countP
        (fun req => decide (req.originSocket = fd)) = 0 := by
      intro r
      refine List.countP_eq_zero.mpr fun req hreq hfd => ?_
      exact hIdle r req (hSub r req hreq) (of_decide_eq_true hfd)
    rw [waiting, hNone, hNone, hNone]
  rcases releaseClientByFd_cases peers s fd with ⟨hNone, hEq⟩ | ⟨⟨grants, hDrain⟩, -⟩
  · rw [hEq]
    exact ⟨hQueues fun r req hreq => hreq, hNone⟩
  · refine ⟨hQueues fun r req hreq => hDrain.mem_queue hreq, ?_⟩
    rw [reservedOn, List.filter_eq_nil_iff]
    intro job hJob hfd
    rcases hDrain.mem_table hJob with hOld | ⟨g, hg, hSocket⟩
    · rw [creditOnly, toList_removeWhere, List.mem_filter] at hOld
      rw [hfd] at hOld
      exact absurd hOld.2 (by decide)
    · rw [of_decide_eq_true hfd] at hSocket
      exact hIdle g.resource g.req (hDrain.mem_grants hg) hSocket.symm

end

/-- The invariant of the runs of this module. -/
structure Orderly (s : Hosting) : Prop where
  settled : Settled s.serving.opens s.asked s.address s.serving.server
  distinct : ∀ x ∈ s.serving.opens, ∀ y ∈ s.serving.opens, s.address x = s.address y → x = y
  asked : ∀ x ∈ s.asked, x ∈ s.serving.opens
  blocked : ∀ r, Blocked (s.serving.server.queue r)

theorem orderly_init (capacity : Resource → Int) : Orderly (Hosting.init capacity) where
  settled := by
    refine ⟨fun r req hreq => ?_, fun job hJob => ?_, fun fd => ?_⟩
    · simp [Hosting.init, Serving.init, ServerState.init, makeQueue] at hreq
    · simp [Hosting.init, Serving.init, ServerState.init] at hJob
    · simp [Hosting.init, Serving.init, ServerState.init, makeQueue, waiting, holding]
  distinct x hx := by simp [Hosting.init, Serving.init] at hx
  asked x hx := by simp [Hosting.init] at hx
  blocked r := by simp [Hosting.init, Serving.init, ServerState.init, makeQueue, Blocked]

theorem Orderly.line {s : Hosting} (h : Orderly s) {fd : Int} {text : Text} {peers : Peers}
    (hOpen : fd ∈ s.serving.opens) (hFirst : isReserve text = true → fd ∉ s.asked)
    (hPeers : Answers s peers) : Orderly (host s (.line fd text peers)) := by
  have hBlocked := blocked_serve h.blocked (.line fd text peers)
  have hKeep : isReserve text = false →
      Settled s.serving.opens s.asked s.address
        (serveStep s.serving (.line fd text peers)).server →
      Orderly (host s (.line fd text peers)) := by
    intro hOther hSettled
    refine ⟨?_, h.distinct, ?_, hBlocked⟩
    · simp only [host, hOther]
      exact hSettled
    · simp only [host, hOther]
      exact h.asked
  cases hMsg : parseRemote text with
  | reserve jobId resource amount =>
      have hReserve : isReserve text = true := by rw [isReserve, hMsg]
      obtain ⟨⟨grants, hDrain⟩, -⟩ :=
        enqueueJobs_drained peers s.serving.server resource jobId amount fd
      have hMid := h.settled.enqueue hOpen (hFirst hReserve) (Resource.ofName resource)
        jobId amount
      refine ⟨?_, h.distinct, ?_, hBlocked⟩
      · simp only [host, PeerEvent.handler, serveStep, serve, serverMessage, hMsg, hReserve,
          if_true]
        exact hMid.drained h.distinct hPeers hDrain
      · intro x hx
        simp only [host, hReserve, if_true, List.mem_cons] at hx
        rcases hx with rfl | hx
        · exact hOpen
        · exact h.asked x hx
  | release => exact hKeep (by rw [isReserve, hMsg]) (by
      simp only [serveStep, serve, serverMessage, hMsg]
      exact h.settled.release h.distinct hPeers fd)
  | granted jobId => exact hKeep (by rw [isReserve, hMsg]) (by
      simp only [serveStep, serve, serverMessage, hMsg]
      exact h.settled)
  | reject => exact hKeep (by rw [isReserve, hMsg]) (by
      simp only [serveStep, serve, serverMessage, hMsg]
      exact h.settled)
  | ignored => exact hKeep (by rw [isReserve, hMsg]) (by
      simp only [serveStep, serve, serverMessage, hMsg]
      exact h.settled)

theorem Orderly.accept {s : Hosting} (h : Orderly s) {fd : Int} {addr : Addr}
    (hFree : fd ∉ s.serving.opens) (hAddr : ∀ x ∈ s.serving.opens, s.address x ≠ addr) :
    Orderly (host s (.accept fd addr)) := by
  have hOther : ∀ x ∈ s.serving.opens, (if x = fd then addr else s.address x) = s.address x := by
    intro x hx
    refine if_neg ?_
    rintro rfl
    exact hFree hx
  refine ⟨?_, ?_, fun x hx => List.mem_cons_of_mem _ (h.asked x hx), h.blocked⟩
  · refine h.settled.congr fun x hPos => ?_
    obtain ⟨hOpen, hAsked⟩ := h.settled.present hPos
    exact ⟨List.mem_cons_of_mem _ hOpen, hAsked, hOther x hOpen⟩
  · intro x hx y hy hEq
    simp only [host] at hEq
    rcases List.mem_cons.mp hx with hxFd | hxOld <;> rcases List.mem_cons.mp hy with hyFd | hyOld
    · rw [hxFd, hyFd]
    · rw [if_pos hxFd, hOther y hyOld] at hEq
      exact absurd hEq.symm (hAddr y hyOld)
    · rw [if_pos hyFd, hOther x hxOld] at hEq
      exact absurd hEq (hAddr x hxOld)
    · rw [hOther x hxOld, hOther y hyOld] at hEq
      exact h.distinct x hxOld y hyOld hEq

theorem Orderly.disconnect {s : Hosting} (h : Orderly s) {fd : Int} {peers : Peers}
    (hIdle : Idle s.serving.server fd) (hPeers : Answers s peers) :
    Orderly (host s (.disconnect fd peers)) := by
  have hAfter := h.settled.release h.distinct hPeers fd
  obtain ⟨hWaits, hHolds⟩ := nothing_after_release peers hIdle
  have hGone : waiting (releaseClientByFd peers s.serving.server fd).1 fd +
      holding (releaseClientByFd peers s.serving.server fd).1.tableNodejobs fd = 0 := by
    rw [hWaits, Nat.zero_add, holding, List.countP_eq_length_filter]
    exact congrArg List.length hHolds
  refine ⟨?_, ?_, ?_, blocked_serve h.blocked (.disconnect fd peers)⟩
  · refine hAfter.congr fun x hPos => ?_
    have hx : x ≠ fd := by
      rintro rfl
      omega
    obtain ⟨hOpen, hAsked⟩ := hAfter.present hPos
    exact ⟨List.mem_filter.mpr ⟨hOpen, by simpa using hx⟩,
      List.mem_filter.mpr ⟨hAsked, by simpa using hx⟩, rfl⟩
  · intro x hx y hy
    exact h.distinct x (List.mem_of_mem_filter hx) y (List.mem_of_mem_filter hy)
  · intro x hx
    obtain ⟨hAsked, hNe⟩ := List.mem_filter.mp hx
    exact List.mem_filter.mpr ⟨h.asked x hAsked, hNe⟩

theorem Orderly.step {s : Hosting} {e : PeerEvent} (h : Orderly s) (hOk : SingleRequest s e) :
    Orderly (host s e) := by
  cases e with
  | accept fd addr => exact h.accept hOk.1 hOk.2
  | line fd text peers => exact h.line hOk.1 hOk.2.1 hOk.2.2
  | disconnect fd peers => exact h.disconnect hOk.2.1 hOk.2.2

/-! ## The effect of a release -/

/-- `release_client_by_fd(fd)` took `s` to `s'`: `mid` is the state before the
re-drain and `grants` is what the re-drain granted. -/
structure Releases (fd : Int) (s mid s' : ServerState) (grants : List Grant) : Prop where
  /-- exactly the records of `fd` leave -/
  removed : mid.tableNodejobs.toList =
    s.tableNodejobs.toList.filter fun job => decide (job.originalSocket ≠ fd)
  /-- their sums are credited, and no queue is touched -/
  credited : ∀ r, mid.queue r = ⟨(s.queue r).resourcesLeft +
    ((s.tableNodejobs.toList.filter fun job => decide (job.originalSocket = fd)).map
      fun job => job.granted r).sum, (s.queue r).requests⟩
  /-- the re-drain adds one record for each grant -/
  records : s'.tableNodejobs.toList.Perm (grants.map newRecord ++ mid.tableNodejobs.toList)
  /-- a record of another socket stays as it is -/
  kept : ∀ job ∈ s.tableNodejobs.toList, job.originalSocket ≠ fd →
    job ∈ s'.tableNodejobs.toList
  /-- no grant is for `fd` -/
  others : ∀ g ∈ grants, g.req.originSocket ≠ fd
  pools : ∀ r, (s'.queue r).resourcesLeft =
    (mid.queue r).resourcesLeft - grantedAmount grants r
  /-- each queue loses the granted requests from its front; the rest keep their
  order -/
  queues : ∀ r, ∃ served, (s.queue r).requests = served ++ (s'.queue r).requests ∧
    served.Perm (grantedReqs grants r)
  drained : ∀ r, Blocked (s'.queue r)
  counted : s'.tableNodejobs.numElems = s'.tableNodejobs.toList.length

theorem foldl_visit (jobs : List ReceivedJob) :
    ∀ c : Collected, jobs.foldl Collected.visit c =
      ⟨c.foundAny || !jobs.isEmpty, fun r => c.add r + totalGranted jobs r⟩ := by
  induction jobs with
  | nil =>
      intro c
      simp [totalGranted]
  | cons job jobs ih =>
      intro c
      rw [List.foldl_cons, ih]
      simp [Collected.visit, totalGranted, Int.add_assoc]

/-- The bucket walk of `release_client_by_fd` unlinks and sums what
`creditOnly` says. -/
theorem collectByFd_raw (s : ServerState) (fd : Int) :
    collectByFd (raw s.tableNodejobs) fd =
      (raw (creditOnly s fd).tableNodejobs,
        ⟨!(reservedOn s.tableNodejobs fd).isEmpty,
          totalGranted (reservedOn s.tableNodejobs fd)⟩) := by
  rw [collectByFd, raw_walk, foldl_visit]
  simp [creditOnly, reservedOn]

theorem creditOnly_eq_self {s : ServerState} {fd : Int}
    (hNone : reservedOn s.tableNodejobs fd = []) : creditOnly s fd = s := by
  have hTable : removeWhere s.tableNodejobs (fun job => decide (job.originalSocket = fd)) =
      s.tableNodejobs := by
    refine removeWhere_eq_self fun job hJob => ?_
    rw [reservedOn, List.filter_eq_nil_iff] at hNone
    simpa using hNone job hJob
  rw [creditOnly, hTable, hNone]
  simp [totalGranted]

/-- With the queues drained, `release_client_by_fd` is always a credit followed
by a drain. -/
theorem release_drained {s : ServerState} (hBlocked : ∀ r, Blocked (s.queue r)) (peers : Peers)
    (fd : Int) :
    (∃ grants, Drained peers (creditOnly s fd) (releaseClientByFd peers s fd).1
        (releaseClientByFd peers s fd).2 grants) ∧
      ∀ r, Blocked ((releaseClientByFd peers s fd).1.queue r) := by
  rcases releaseClientByFd_cases peers s fd with ⟨hNone, hEq⟩ | hDrain
  · rw [hEq, creditOnly_eq_self hNone]
    exact ⟨⟨[], .refl peers s⟩, hBlocked⟩
  · exact hDrain

theorem Orderly.releases {s : Hosting} (h : Orderly s) {peers : Peers} (hPeers : Answers s peers)
    {fd : Int} (hIdle : Idle s.serving.server fd) :
    ∃ grants, Releases fd s.serving.server (creditOnly s.serving.server fd)
      (releaseClientByFd peers s.serving.server fd).1 grants := by
  obtain ⟨⟨grants, hDrain⟩, hBlocked⟩ := release_drained h.blocked peers fd
  have hRecords := (h.settled.credit fd).records h.distinct hPeers hDrain
  have hRemoved : (creditOnly s.serving.server fd).tableNodejobs.toList =
      s.serving.server.tableNodejobs.toList.filter
        fun job => decide (job.originalSocket ≠ fd) := by
    rw [creditOnly, toList_removeWhere]
    simp
  refine ⟨grants, ⟨hRemoved, fun r => rfl, hRecords, ?_, ?_, hDrain.left, hDrain.queues,
    hBlocked, ?_⟩⟩
  · intro job hJob hOther
    refine hRecords.mem_iff.mpr (List.mem_append_right _ ?_)
    rw [hRemoved, List.mem_filter]
    exact ⟨hJob, by simpa using hOther⟩
  · intro g hg
    exact hIdle g.resource g.req (hDrain.mem_grants hg)
  · exact Table.counted _

/-- **Release is exact, isolated and idempotent.**  In every state reached in
a run in which each connection carries one RESERVE and is not closed while it
is queued, for every socket with no queued request: the bucket walk unlinks
the records of the socket, with the sums that are then credited; the re-drain
makes new records only and keeps the order of what still waits; and a second
release changes nothing. -/
theorem release_exact (capacity : Resource → Int) (es : List PeerEvent)
    (hRun : Meets host SingleRequest (Hosting.init capacity) es) (peers : Peers)
    (hPeers : Answers (run host (Hosting.init capacity) es) peers) (fd : Int)
    (hIdle : Idle (run host (Hosting.init capacity) es).serving.server fd) :
    collectByFd (raw (run host (Hosting.init capacity) es).serving.server.tableNodejobs) fd =
        (raw (creditOnly (run host (Hosting.init capacity) es).serving.server fd).tableNodejobs,
          ⟨!(reservedOn (run host (Hosting.init capacity) es).serving.server.tableNodejobs
              fd).isEmpty,
            totalGranted (reservedOn
              (run host (Hosting.init capacity) es).serving.server.tableNodejobs fd)⟩) ∧
      (∃ grants, Releases fd (run host (Hosting.init capacity) es).serving.server
        (creditOnly (run host (Hosting.init capacity) es).serving.server fd)
        (releaseClientByFd peers (run host (Hosting.init capacity) es).serving.server fd).1
        grants) ∧
      ∀ peers', releaseClientByFd peers'
          (releaseClientByFd peers (run host (Hosting.init capacity) es).serving.server fd).1 fd =
        ((releaseClientByFd peers (run host (Hosting.init capacity) es).serving.server fd).1,
          []) := by
  have hInv : Orderly (run host (Hosting.init capacity) es) :=
    run_invariant Orderly (fun s e hs he => hs.step he) (orderly_init capacity) hRun
  refine ⟨collectByFd_raw _ fd, hInv.releases hPeers hIdle, ?_⟩
  intro peers'
  rw [releaseClientByFd, if_pos (nothing_after_release peers hIdle).2]

/-- The peers of descriptors 7 and 8. -/
def twoNames (fd : Int) : Addr := if fd = 7 then (10, 40001) else (10, 40002)

/-- `getpeername` on them. -/
def twoPeers : Peers := fun _ _ fd => some (twoNames fd)

theorem answers_twoPeers {s : Hosting} (h : ∀ fd ∈ s.serving.opens, twoNames fd = s.address fd) :
    Answers s twoPeers :=
  fun _ _ fd hfd => congrArg some (h fd hfd)

/-- Job 1 holds four cpus on descriptor 7 and job 2 waits for two on
descriptor 8. -/
def waitingRun : List PeerEvent :=
  [.accept 7 (10, 40001), .line 7 "RESERVE 1 cpu 4\n".toList twoPeers,
    .accept 8 (10, 40002), .line 8 "RESERVE 2 cpu 2\n".toList twoPeers]

/-- The conditions of `release_exact` on that run; the release grants job 2. -/
theorem release_exact_waiting :
    Meets host SingleRequest (Hosting.init fun r => localCapacity r) waitingRun ∧
      Idle (run host (Hosting.init fun r => localCapacity r) waitingRun).serving.server 7 ∧
      (releaseClientByFd twoPeers (releaseClientByFd twoPeers
          (run host (Hosting.init fun r => localCapacity r) waitingRun).serving.server 7).1
          7).1.tableNodejobs.toList = [⟨2, 10, 40002, 2, 0, 0, 8⟩] := by
  have hRun : Meets host SingleRequest (Hosting.init fun r => localCapacity r) waitingRun := by
    refine ⟨⟨by decide +kernel, by decide +kernel⟩,
      ⟨by decide +kernel, by decide +kernel, ?_⟩,
      ⟨by decide +kernel, by decide +kernel⟩,
      ⟨by decide +kernel, by decide +kernel, ?_⟩, trivial⟩
    · exact answers_twoPeers (by decide +kernel)
    · exact answers_twoPeers (by decide +kernel)
  have hPeers : Answers (run host (Hosting.init fun r => localCapacity r) waitingRun) twoPeers :=
    answers_twoPeers (by decide +kernel)
  have hIdle : Idle (run host (Hosting.init fun r => localCapacity r)
      waitingRun).serving.server 7 := by
    unfold Idle
    decide +kernel
  refine ⟨hRun, hIdle, ?_⟩
  rw [(release_exact _ waitingRun hRun twoPeers hPeers 7 hIdle).2.2 twoPeers]
  decide +kernel

end ResourceAgent.Ports.Release
