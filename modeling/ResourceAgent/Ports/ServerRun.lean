import ResourceAgent.Ports.Reservation
import ResourceAgent.Verified.Runs

/-!
# Whole runs of the server side

A run is a sequence of handlers executed one at a time: connections are
accepted, lines arrive, connections are found closed.  `Serving` adds to the
server's own state the set of descriptors that are open, which is what the
environment needs to decide whether an event can happen (`Enabled`).

Four results about every run:

* `pool_conserved` — units are neither lost nor created, whatever the peers
  send;
* `pool_bounded` — with non-negative amounts the free amount stays between
  zero and the capacity.  `negative_amount_overfills` shows why the condition
  is there: nothing rejects a negative amount, and granting one *adds* to the
  pool;
* `sockets_stay_live` — if no connection closes while one of its requests is
  still queued, then only open connections wait for or hold resources.
  `closed_peer_keeps_capacity` shows the other case: `release_client_by_fd`
  looks at `table_nodejobs` only, so a queued request outlives its connection
  and is granted later;
* `free_pool_has_no_queue` — a pool nobody holds a unit of has no queue, if no
  request asks for more than its capacity, or for less than nothing.
  `oversized_request_blocks_free_pool`
  shows what one that does leads to: the line is queued like any other, never
  answered with DENIED, and stays at the head for good.
-/

namespace ResourceAgent.Ports.ServerRun

open ResourceAgent.Ports.HashTable
open ResourceAgent.Ports.Records
open ResourceAgent.Ports.Wire
open ResourceAgent.Ports.Reservation
open ResourceAgent.Verified.CText
open ResourceAgent.Verified.Runs

/-! ## Events -/

/-- The server side together with the open peer connections. -/
structure Serving where
  server : ServerState
  opens : List Int

/-- One handler of the server side. -/
inductive ServerEvent where
  /-- `connect_client` accepted a connection as `fd` -/
  | accept (fd : Int)
  /-- `client_to_myserver(fd, text)` -/
  | line (fd : Int) (text : Text) (peers : Peers)
  /-- the disconnect branch of `recive_message_from_remote` -/
  | disconnect (fd : Int) (peers : Peers)

/-- Run one handler. -/
def serve (s : Serving) : ServerEvent → Serving × List Effect
  | .accept fd => ({ s with opens := fd :: s.opens }, [])
  | .line fd text peers =>
      ({ s with server := (serverMessage peers s.server fd text).1 },
        (serverMessage peers s.server fd text).2)
  | .disconnect fd peers =>
      ({ server := (releaseClientByFd peers s.server fd).1,
         opens := s.opens.filter fun x => decide (x ≠ fd) },
        (releaseClientByFd peers s.server fd).2)

/-- The state after one handler. -/
def serveStep (s : Serving) (e : ServerEvent) : Serving := (serve s e).1

/-- No connection, nothing queued, nothing granted. -/
def Serving.init (capacity : Resource → Int) : Serving where
  server := ServerState.init capacity
  opens := []

/-- The kernel hands out descriptors that are not in use, and reports lines
and disconnects only on open ones. -/
def Enabled (s : Serving) : ServerEvent → Prop
  | .accept fd => fd ∉ s.opens
  | .line fd _ _ => fd ∈ s.opens
  | .disconnect fd _ => fd ∈ s.opens

instance : ∀ s e, Decidable (Enabled s e)
  | s, .accept fd => inferInstanceAs (Decidable (fd ∉ s.opens))
  | s, .line fd _ _ => inferInstanceAs (Decidable (fd ∈ s.opens))
  | s, .disconnect fd _ => inferInstanceAs (Decidable (fd ∈ s.opens))

/-- The descriptor an event is about. -/
def ServerEvent.fd : ServerEvent → Int
  | .accept fd => fd
  | .line fd _ _ => fd
  | .disconnect fd _ => fd

/-- Every handler prepares the state on its own descriptor and then drains. -/
theorem serve_drained (s : Serving) (e : ServerEvent) :
    ∃ peers mid grants, Prepared s.server e.fd mid ∧
      Drained peers mid (serve s e).1.server (serve s e).2 grants := by
  cases e with
  | accept fd => exact ⟨fun _ _ _ => none, _, [], .idle, .refl _ _⟩
  | line fd text peers =>
      obtain ⟨mid, grants, hPrep, hDrain⟩ := serverMessage_drained peers s.server fd text
      exact ⟨peers, mid, grants, hPrep, hDrain⟩
  | disconnect fd peers =>
      obtain ⟨mid, grants, hPrep, hDrain⟩ := releaseClientByFd_drained peers s.server fd
      exact ⟨peers, mid, grants, hPrep, hDrain⟩

/-- Every handler leaves the queues drained. -/
theorem blocked_serve {s : Serving} (h : ∀ r, Blocked (s.server.queue r)) (e : ServerEvent) :
    ∀ r, Blocked ((serveStep s e).server.queue r) := by
  have hRelease : ∀ peers fd r, Blocked ((releaseClientByFd peers s.server fd).1.queue r) := by
    intro peers fd
    rcases releaseClientByFd_cases peers s.server fd with ⟨-, hEq⟩ | ⟨-, hBlocked⟩
    · rw [hEq]
      exact h
    · exact hBlocked
  cases e with
  | accept fd => exact h
  | disconnect fd peers => exact hRelease peers fd
  | line fd text peers =>
      simp only [serveStep, serve, serverMessage]
      cases parseRemote text with
      | reserve jobId resource amount =>
          exact (enqueueJobs_drained peers s.server resource jobId amount fd).2
      | release => exact hRelease peers fd
      | granted jobId => exact h
      | reject => exact h
      | ignored => exact h

theorem blocked_run (capacity : Resource → Int) (es : List ServerEvent) :
    ∀ r, Blocked ((run serveStep (Serving.init capacity) es).server.queue r) := by
  refine run_invariant_always (fun s : Serving => ∀ r, Blocked (s.server.queue r))
    (fun s e hs => blocked_serve hs e) ?_ es
  intro r
  simp [Serving.init, ServerState.init, makeQueue, Blocked]

/-! ## Conservation -/

theorem pool_serve (s : Serving) (e : ServerEvent) (r : Resource) :
    pool (serveStep s e).server r = pool s.server r := by
  obtain ⟨peers, mid, grants, hPrep, hDrain⟩ := serve_drained s e
  rw [serveStep, pool_drained hDrain, pool_prepared hPrep]

/-- The total of a pool never moves. -/
theorem pool_run (capacity : Resource → Int) (es : List ServerEvent) (r : Resource) :
    pool (run serveStep (Serving.init capacity) es).server r = capacity r := by
  refine run_invariant_always (fun s : Serving => pool s.server r = capacity r) ?_ ?_ es
  · intro s e hs
    rw [pool_serve, hs]
  · simp [Serving.init, ServerState.init, pool, makeQueue, totalGranted]

/-- **Pool conservation.**  After any sequence of handlers, what is free plus
what the records of `table_nodejobs` hold is the capacity the queue was made
with, for each resource. -/
theorem pool_conserved (capacity : Resource → Int) (es : List ServerEvent) (r : Resource) :
    ((run serveStep (Serving.init capacity) es).server.queue r).resourcesLeft +
        (((run serveStep (Serving.init capacity) es).server.tableNodejobs.toList.map
          fun job => job.granted r).sum) = capacity r :=
  pool_run capacity es r

/-! ## Bounds -/

/-- A RESERVE line asks for a non-negative amount. -/
def AmountNonneg : ServerEvent → Prop
  | .line _ text _ =>
      match parseRemote text with
      | .reserve _ _ amount => 0 ≤ amount
      | _ => True
  | _ => True

/-- Nothing on the server side is negative. -/
structure NonNegative (s : ServerState) : Prop where
  left : ∀ r, 0 ≤ (s.queue r).resourcesLeft
  queued : ∀ r, ∀ req ∈ (s.queue r).requests, 0 ≤ req.amountRequested
  granted : ∀ job ∈ s.tableNodejobs.toList, ∀ r, 0 ≤ job.granted r

theorem totalGranted_nonneg {jobs : List ReceivedJob} {r : Resource}
    (h : ∀ job ∈ jobs, 0 ≤ job.granted r) : 0 ≤ totalGranted jobs r := by
  rw [totalGranted]
  refine List.sum_nonneg ?_
  intro x hx
  obtain ⟨job, hJob, rfl⟩ := List.mem_map.mp hx
  exact h job hJob

/-- A drain of non-negative requests keeps everything non-negative. -/
theorem NonNegative.drained {peers : Peers} {s s' : ServerState} {out : List Effect}
    {grants : List Grant} (h : NonNegative s) (hDrain : Drained peers s s' out grants) :
    NonNegative s' := by
  have hGrants : ∀ g ∈ grants, 0 ≤ g.req.amountRequested :=
    fun g hg => h.queued g.resource g.req (hDrain.mem_grants hg)
  refine ⟨?_, ?_, ?_⟩
  · intro r
    rcases hDrain.covered r with hNone | hPos
    · rw [hDrain.left, grantedAmount, hNone, List.map_nil, List.sum_nil]
      have := h.left r
      omega
    · exact hPos
  · exact fun r req hreq => h.queued r req (hDrain.mem_queue hreq)
  · rw [hDrain.table]
    refine forall_foldl_record ?_ _ h.granted
    intro t g hg ht r
    have hAmount := hGrants g hg
    have hOld : 0 ≤ (tablahashFind t (grantKey g.peer g.req.jobId)).elim 0
        fun e => e.granted r := by
      cases hFind : tablahashFind t (grantKey g.peer g.req.jobId) with
      | none => exact Int.le_refl 0
      | some e => exact ht e ((find_eq_some_iff _ _ _).mp hFind).1 r
    rw [recordOf_granted]
    split <;> omega

theorem NonNegative.credit {s : ServerState} (h : NonNegative s) (fd : Int) :
    NonNegative (creditOnly s fd) := by
  refine ⟨?_, h.queued, ?_⟩
  · intro r
    have hAdd : 0 ≤ totalGranted (reservedOn s.tableNodejobs fd) r :=
      totalGranted_nonneg fun job hJob => h.granted job (List.mem_of_mem_filter hJob) r
    have := h.left r
    simp only [creditOnly]
    omega
  · intro job hJob
    rw [creditOnly, toList_removeWhere] at hJob
    exact h.granted job (List.mem_of_mem_filter hJob)

theorem NonNegative.enqueue {s : ServerState} (h : NonNegative s) (r : Resource)
    (jobId fd : Int) {amount : Int} (hAmount : 0 ≤ amount) :
    NonNegative (enqueueOnly s r (makeRequest s jobId fd amount)) := by
  refine ⟨?_, ?_, h.granted⟩
  · intro r'
    by_cases hr : r' = r
    · simpa [enqueueOnly, enqueueRequest, hr] using h.left r
    · simpa [enqueueOnly, hr] using h.left r'
  · intro r' req hreq
    by_cases hr : r' = r
    · simp only [enqueueOnly, setQueue_queue, hr, if_true, enqueueRequest, List.mem_append,
        List.mem_singleton] at hreq
      rcases hreq with hreq | rfl
      · exact h.queued r req hreq
      · exact hAmount
    · simp only [enqueueOnly, setQueue_queue, hr, if_false] at hreq
      exact h.queued r' req hreq

theorem NonNegative.release {s : ServerState} (h : NonNegative s) (peers : Peers)
    (fd : Int) : NonNegative (releaseClientByFd peers s fd).1 := by
  rcases releaseClientByFd_cases peers s fd with ⟨-, hEq⟩ | ⟨⟨grants, hDrain⟩, -⟩
  · rw [hEq]
    exact h
  · exact (h.credit fd).drained hDrain

theorem NonNegative.serve {s : Serving} {e : ServerEvent} (h : NonNegative s.server)
    (hAmount : AmountNonneg e) : NonNegative (serveStep s e).server := by
  cases e with
  | accept fd => exact h
  | disconnect fd peers => exact h.release peers fd
  | line fd text peers =>
      simp only [serveStep, ServerRun.serve, serverMessage]
      simp only [AmountNonneg] at hAmount
      cases hMsg : parseRemote text with
      | reserve jobId resource amount =>
          rw [hMsg] at hAmount
          obtain ⟨⟨grants, hDrain⟩, -⟩ :=
            enqueueJobs_drained peers s.server resource jobId amount fd
          exact (h.enqueue _ jobId fd hAmount).drained hDrain
      | release => exact h.release peers fd
      | granted jobId => exact h
      | reject => exact h
      | ignored => exact h

/-- **No over-allocation, for non-negative amounts.**  If every RESERVE line of
a run asks for a non-negative amount, each free amount stays between zero and
the capacity and no record is negative. -/
theorem pool_bounded (capacity : Resource → Nat) (es : List ServerEvent)
    (hAmounts : ∀ e ∈ es, AmountNonneg e) :
    (∀ r, 0 ≤ ((run serveStep (Serving.init fun r => capacity r) es).server.queue r).resourcesLeft ∧
        ((run serveStep (Serving.init fun r => capacity r) es).server.queue r).resourcesLeft ≤
          capacity r) ∧
      ∀ job ∈ (run serveStep (Serving.init fun r => capacity r) es).server.tableNodejobs.toList,
        ∀ r, 0 ≤ job.granted r := by
  have hInit : NonNegative (Serving.init fun r => (capacity r : Int)).server := by
    refine ⟨fun r => ?_, fun r req hreq => ?_, fun job hJob => ?_⟩
    · exact Int.natCast_nonneg (capacity r)
    · simp [Serving.init, ServerState.init, makeQueue] at hreq
    · simp [Serving.init, ServerState.init] at hJob
  have hInv : NonNegative (run serveStep (Serving.init fun r => capacity r) es).server :=
    run_invariant (fun s : Serving => NonNegative s.server)
      (fun s e hs he => hs.serve he) hInit (meets_of_forall hAmounts)
  refine ⟨fun r => ⟨hInv.left r, ?_⟩, hInv.granted⟩
  have hPool := pool_run (fun r => (capacity r : Int)) es r
  have hHeld := totalGranted_nonneg (r := r) fun job hJob => hInv.granted job hJob r
  rw [pool] at hPool
  omega

/-- The capacities of `main.c`. -/
def localCapacity : Resource → Nat
  | .cpu => 4
  | .mem => 8192
  | .gpu => 1

/-- `getpeername` failing on every call. -/
def noPeers : Peers := fun _ _ _ => none

/-- A peer that asks for minus five cpus. -/
def negativeRun : List ServerEvent :=
  [.accept 7, .line 7 "RESERVE 1 cpu -5\n".toList noPeers]

/-- The request is granted at once: nine of four cpus are then free, and a
record holds minus five. -/
theorem negative_amount_overfills :
    Meets serveStep Enabled (Serving.init fun r => localCapacity r) negativeRun ∧
      ((run serveStep (Serving.init fun r => localCapacity r) negativeRun).server.queue
        .cpu).resourcesLeft = 9 ∧
      ¬ ((run serveStep (Serving.init fun r => localCapacity r) negativeRun).server.queue
        .cpu).resourcesLeft ≤ localCapacity .cpu ∧
      ((run serveStep (Serving.init fun r => localCapacity r)
        negativeRun).server.tableNodejobs.toList.map fun job => job.granted .cpu) = [-5] := by
  decide +kernel

/-- The condition of `pool_bounded` on a run with a RESERVE line. -/
theorem pool_bounded_reserve :
    (∀ e ∈ [ServerEvent.accept 7, .line 7 "RESERVE 1 cpu 3\n".toList noPeers], AmountNonneg e) ∧
      0 ≤ ((run serveStep (Serving.init fun r => localCapacity r)
        [.accept 7, .line 7 "RESERVE 1 cpu 3\n".toList noPeers]).server.queue
          .cpu).resourcesLeft := by
  have hAmounts : ∀ e ∈ [ServerEvent.accept 7, .line 7 "RESERVE 1 cpu 3\n".toList noPeers],
      AmountNonneg e := by
    intro e he
    simp only [List.mem_cons, List.not_mem_nil, or_false] at he
    rcases he with rfl | rfl
    · trivial
    · have hParse : parseRemote "RESERVE 1 cpu 3\n".toList = .reserve 1 "cpu".toList 3 := by
        decide +kernel
      simp only [AmountNonneg, hParse]
      decide
  exact ⟨hAmounts, ((pool_bounded localCapacity _ hAmounts).1 .cpu).1⟩

/-! ## Live sockets -/

/-- Every queued request and every record names an open descriptor. -/
structure OnlyLive (s : Serving) : Prop where
  queued : ∀ r, ∀ req ∈ (s.server.queue r).requests, req.originSocket ∈ s.opens
  granted : ∀ job ∈ s.server.tableNodejobs.toList, job.originalSocket ∈ s.opens

/-- The connection being closed has no request waiting in a queue. -/
def NoneQueued (s : Serving) : ServerEvent → Prop
  | .disconnect fd _ => ∀ r, ∀ req ∈ (s.server.queue r).requests, req.originSocket ≠ fd
  | _ => True

instance : ∀ s e, Decidable (NoneQueued s e)
  | _, .accept _ => isTrue trivial
  | _, .line _ _ _ => isTrue trivial
  | s, .disconnect fd _ => inferInstanceAs (Decidable
      (∀ r, ∀ req ∈ (s.server.queue r).requests, req.originSocket ≠ fd))

/-- A handler only queues and grants what was queued already, each request in its pool,
plus the request of a RESERVE in the pool that is named. -/
theorem serve_requests {P : Resource → Request → Prop} (s : Serving) (e : ServerEvent)
    (hOld : ∀ r, ∀ req ∈ (s.server.queue r).requests, P r req)
    (hNew : ∀ fd text peers jobId resource amount, e = .line fd text peers →
      parseRemote text = .reserve jobId resource amount →
      P (Resource.ofName resource) (makeRequest s.server jobId fd amount)) :
    (∀ r, ∀ req ∈ ((serve s e).1.server.queue r).requests, P r req) ∧
      ∀ r req, Effect.recorded r req ∈ (serve s e).2 → P r req := by
  have hRelease : ∀ peers fd, ∃ mid grants, (∀ r, ∀ req ∈ (mid.queue r).requests, P r req) ∧
      Drained peers mid (releaseClientByFd peers s.server fd).1
        (releaseClientByFd peers s.server fd).2 grants := by
    intro peers fd
    rcases releaseClientByFd_cases peers s.server fd with ⟨-, hEq⟩ | ⟨⟨grants, h⟩, -⟩
    · rw [hEq]
      exact ⟨s.server, [], hOld, .refl _ _⟩
    · exact ⟨creditOnly s.server fd, grants, hOld, h⟩
  obtain ⟨peers, mid, grants, hMid, hDrain⟩ : ∃ peers mid grants,
      (∀ r, ∀ req ∈ (mid.queue r).requests, P r req) ∧
        Drained peers mid (serve s e).1.server (serve s e).2 grants := by
    cases e with
    | accept fd => exact ⟨noPeers, s.server, [], hOld, .refl _ _⟩
    | disconnect fd peers => exact ⟨peers, hRelease peers fd⟩
    | line fd text peers =>
        simp only [serve, serverMessage]
        cases hMsg : parseRemote text with
        | reserve jobId resource amount =>
            obtain ⟨⟨grants, hDrain⟩, -⟩ :=
              enqueueJobs_drained peers s.server resource jobId amount fd
            refine ⟨peers, _, grants, fun r req hreq => ?_, hDrain⟩
            by_cases hr : r = Resource.ofName resource
            · simp only [enqueueOnly, setQueue_queue, hr, if_true, enqueueRequest,
                List.mem_append, List.mem_singleton] at hreq
              rw [hr]
              rcases hreq with hreq | rfl
              · exact hOld _ req hreq
              · exact hNew fd text peers jobId resource amount rfl hMsg
            · simp only [enqueueOnly, setQueue_queue, hr, if_false] at hreq
              exact hOld r req hreq
        | release => exact ⟨peers, hRelease peers fd⟩
        | granted jobId => exact ⟨peers, s.server, [], hOld, .refl _ _⟩
        | reject => exact ⟨peers, s.server, [], hOld, .refl _ _⟩
        | ignored => exact ⟨peers, s.server, [], hOld, .refl _ _⟩
  refine ⟨fun r req hreq => hMid r req (hDrain.mem_queue hreq), fun r req hRec => ?_⟩
  obtain ⟨g, hg, rfl, rfl⟩ := (hDrain.recorded_iff r req).mp hRec
  exact hMid g.resource g.req (hDrain.mem_grants hg)

/-- A record after a handler is an old one, not of a socket the handler
closed, or was made by one of the handler's grants. -/
theorem serve_records (s : Serving) (e : ServerEvent) {job : ReceivedJob}
    (hJob : job ∈ (serve s e).1.server.tableNodejobs.toList) :
    (job ∈ s.server.tableNodejobs.toList ∧
        ∀ fd peers, e = .disconnect fd peers → job.originalSocket ≠ fd) ∨
      ∃ r req, Effect.recorded r req ∈ (serve s e).2 ∧
        job.originalSocket = req.originSocket := by
  have hGrant : ∀ {peers mid grants}, Drained peers mid (serve s e).1.server (serve s e).2 grants →
      job ∈ mid.tableNodejobs.toList ∨ ∃ r req, Effect.recorded r req ∈ (serve s e).2 ∧
        job.originalSocket = req.originSocket := by
    intro peers mid grants hDrain
    rcases hDrain.mem_table hJob with h | ⟨g, hg, hSock⟩
    · exact .inl h
    · exact .inr ⟨g.resource, g.req, (hDrain.recorded_iff _ _).mpr ⟨g, hg, rfl, rfl⟩, hSock⟩
  cases e with
  | accept fd => exact .inl ⟨hJob, by rintro _ _ ⟨⟩⟩
  | disconnect fd peers =>
      rcases releaseClientByFd_cases peers s.server fd with ⟨hNone, hEq⟩ | ⟨⟨grants, hDrain⟩, -⟩
      · simp only [serve, hEq] at hJob
        refine .inl ⟨hJob, fun fd' _ h hSock => ?_⟩
        cases h
        have hMem : job ∈ reservedOn s.server.tableNodejobs fd :=
          List.mem_filter.mpr ⟨hJob, by simpa using hSock⟩
        rw [hNone] at hMem
        cases hMem
      · rcases hGrant hDrain with h | h
        · rw [creditOnly, toList_removeWhere, List.mem_filter] at h
          refine .inl ⟨h.1, fun fd' _ hEq => ?_⟩
          cases hEq
          simpa using h.2
        · exact .inr h
  | line fd text peers =>
      obtain ⟨mid, grants, hPrep, hDrain⟩ := serverMessage_drained peers s.server fd text
      rcases hGrant hDrain with h | h
      · refine .inl ⟨?_, by rintro _ _ ⟨⟩⟩
        cases hPrep with
        | idle => exact h
        | enqueue => exact h
        | credit =>
            rw [creditOnly, toList_removeWhere] at h
            exact List.mem_of_mem_filter h
      · exact .inr h

/-- Under the two conditions a handler queues and grants only for descriptors
that are open after it. -/
theorem serve_live {s : Serving} {e : ServerEvent} (hLive : OnlyLive s)
    (hEnabled : Enabled s e) (hNone : NoneQueued s e) :
    (∀ r, ∀ req ∈ ((serve s e).1.server.queue r).requests,
        req.originSocket ∈ (serve s e).1.opens) ∧
      ∀ r req, Effect.recorded r req ∈ (serve s e).2 →
        req.originSocket ∈ (serve s e).1.opens := by
  refine serve_requests (P := fun _ req => req.originSocket ∈ (serve s e).1.opens) s e ?_ ?_
  · intro r req hreq
    have hOpen := hLive.queued r req hreq
    cases e with
    | accept fd => exact List.mem_cons_of_mem _ hOpen
    | line fd text peers => exact hOpen
    | disconnect fd peers =>
        exact List.mem_filter.mpr ⟨hOpen, by simpa using hNone r req hreq⟩
  · rintro fd text peers jobId resource amount rfl -
    exact hEnabled

theorem OnlyLive.serve {s : Serving} {e : ServerEvent} (hLive : OnlyLive s)
    (hEnabled : Enabled s e) (hNone : NoneQueued s e) : OnlyLive (serveStep s e) := by
  obtain ⟨hQueued, hRecorded⟩ := serve_live hLive hEnabled hNone
  refine ⟨hQueued, fun job hJob => ?_⟩
  rcases serve_records s e hJob with ⟨hOld, hKept⟩ | ⟨r, req, hRec, hSock⟩
  · have hOpen := hLive.granted job hOld
    cases e with
    | accept fd => exact List.mem_cons_of_mem _ hOpen
    | line fd text peers => exact hOpen
    | disconnect fd peers =>
        exact List.mem_filter.mpr ⟨hOpen, by simpa using hKept fd peers rfl⟩
  · rw [hSock]
    exact hRecorded r req hRec

/-- Request addresses only grow. -/
theorem brk_serve (s : Serving) (e : ServerEvent) :
    s.server.brk ≤ (serveStep s e).server.brk := by
  obtain ⟨peers, mid, grants, hPrep, hDrain⟩ := serve_drained s e
  rw [serveStep, hDrain.brk]
  cases hPrep with
  | idle => exact Nat.le_refl _
  | enqueue => exact Nat.le_succ _
  | credit => exact Nat.le_refl _

/-- The requests of `fd` that are queued were all allocated from `b` on. -/
def QueuedSince (b : Nat) (fd : Int) (s : Serving) : Prop :=
  b ≤ s.server.brk ∧
    ∀ r, ∀ req ∈ (s.server.queue r).requests, req.originSocket = fd → b ≤ req.addr

theorem QueuedSince.serve {b : Nat} {fd : Int} {s : Serving} (h : QueuedSince b fd s)
    (e : ServerEvent) :
    QueuedSince b fd (serveStep s e) ∧
      ∀ r req, Effect.recorded r req ∈ (serve s e).2 → req.originSocket = fd → b ≤ req.addr := by
  obtain ⟨hQueued, hRecorded⟩ := serve_requests
    (P := fun _ req => req.originSocket = fd → b ≤ req.addr) s e h.2
    (fun _ _ _ _ _ _ _ _ _ => h.1)
  exact ⟨⟨Nat.le_trans h.1 (brk_serve s e), hQueued⟩, hRecorded⟩

/-- **Only live connections wait or hold, when none closes while queued.**
For every run in which no connection is closed while one of its requests is
still in a queue:

* all queued requests and all records name open descriptors;
* the next handler grants only to descriptors that stay open;
* whatever is queued, or granted next, on a descriptor that was closed at some
  point was requested after that point, on a later connection;
* with every connection closed, the queues and the table are empty and the
  whole capacity is free. -/
theorem sockets_stay_live (capacity : Resource → Int) (es : List ServerEvent)
    (hRun : Meets serveStep (fun s e => Enabled s e ∧ NoneQueued s e)
      (Serving.init capacity) es) :
    OnlyLive (run serveStep (Serving.init capacity) es) ∧
      (∀ e, Enabled (run serveStep (Serving.init capacity) es) e →
        NoneQueued (run serveStep (Serving.init capacity) es) e →
        ∀ r req, Effect.recorded r req ∈ (serve (run serveStep (Serving.init capacity) es) e).2 →
          req.originSocket ∈ (serve (run serveStep (Serving.init capacity) es) e).1.opens) ∧
      (∀ before fd peers after, es = before ++ .disconnect fd peers :: after →
        (∀ r, ∀ req ∈ ((run serveStep (Serving.init capacity) es).server.queue r).requests,
          req.originSocket = fd →
            (run serveStep (Serving.init capacity) before).server.brk ≤ req.addr) ∧
        ∀ e r req,
          Effect.recorded r req ∈ (serve (run serveStep (Serving.init capacity) es) e).2 →
          req.originSocket = fd →
            (run serveStep (Serving.init capacity) before).server.brk ≤ req.addr) ∧
      ((run serveStep (Serving.init capacity) es).opens = [] →
        (∀ r, ((run serveStep (Serving.init capacity) es).server.queue r).requests = [] ∧
          ((run serveStep (Serving.init capacity) es).server.queue r).resourcesLeft =
            capacity r) ∧
        (run serveStep (Serving.init capacity) es).server.tableNodejobs.toList = []) := by
  have hInit : OnlyLive (Serving.init capacity) := by
    refine ⟨fun r req hreq => ?_, fun job hJob => ?_⟩
    · simp [Serving.init, ServerState.init, makeQueue] at hreq
    · simp [Serving.init, ServerState.init] at hJob
  have hStep : ∀ s e, OnlyLive s → Enabled s e ∧ NoneQueued s e → OnlyLive (serveStep s e) :=
    fun s e hs he => hs.serve he.1 he.2
  have hLive := run_invariant OnlyLive hStep hInit hRun
  refine ⟨hLive, fun e he hn => (serve_live hLive he hn).2, ?_, fun hClosed => ?_⟩
  · -- right after the disconnect nothing of `fd` is queued; from there on
    -- `QueuedSince` is kept by every handler
    intro before fd peers after hCut
    subst hCut
    rw [meets_append] at hRun
    have hBefore := run_invariant OnlyLive hStep hInit hRun.1
    obtain ⟨⟨hEnabled, hNone⟩, -⟩ := hRun.2
    have hGone := hBefore.serve hEnabled hNone
    have hSince : QueuedSince (run serveStep (Serving.init capacity) before).server.brk fd
        (run serveStep (Serving.init capacity) (before ++ .disconnect fd peers :: after)) := by
      rw [run_append, run_cons]
      refine run_invariant_always (QueuedSince _ fd) (fun s e hs => (hs.serve e).1) ?_ after
      refine ⟨brk_serve _ _, fun r req hreq hfd => ?_⟩
      have hOpen := hGone.queued r req hreq
      rw [hfd] at hOpen
      simpa using (List.mem_filter.mp hOpen).2
    exact ⟨hSince.2, fun e => (hSince.serve e).2⟩
  · have hQueues : ∀ r,
        ((run serveStep (Serving.init capacity) es).server.queue r).requests = [] := by
      intro r
      rw [List.eq_nil_iff_forall_not_mem]
      intro req hreq
      have hOpen := hLive.queued r req hreq
      rw [hClosed] at hOpen
      cases hOpen
    have hTable : (run serveStep (Serving.init capacity) es).server.tableNodejobs.toList = [] := by
      rw [List.eq_nil_iff_forall_not_mem]
      intro job hJob
      have hOpen := hLive.granted job hJob
      rw [hClosed] at hOpen
      cases hOpen
    refine ⟨fun r => ⟨hQueues r, ?_⟩, hTable⟩
    have hPool := pool_run capacity es r
    rw [pool, hTable, totalGranted, List.map_nil, List.sum_nil] at hPool
    omega

/-- Two peers want all four cpus.  The second waits until the first one's release, and
both leave when they have released. -/
def politeRun : List ServerEvent :=
  [.accept 7, .line 7 "RESERVE 1 cpu 4\n".toList noPeers,
    .accept 8, .line 8 "RESERVE 2 cpu 4\n".toList noPeers,
    .line 7 "RELEASE 1 cpu 4\n".toList noPeers, .disconnect 7 noPeers,
    .line 8 "RELEASE 2 cpu 4\n".toList noPeers, .disconnect 8 noPeers]

/-- The conditions of `sockets_stay_live` on a whole conversation: the second request is
queued after four steps and recorded after five, and in the end nothing is left. -/
theorem sockets_stay_live_polite :
    Meets serveStep (fun s e => Enabled s e ∧ NoneQueued s e)
        (Serving.init fun r => localCapacity r) politeRun ∧
      (((run serveStep (Serving.init fun r => localCapacity r)
        (politeRun.take 4)).server.queue .cpu).requests.map fun req => req.originSocket) = [8] ∧
      ((run serveStep (Serving.init fun r => localCapacity r)
        (politeRun.take 5)).server.tableNodejobs.toList.map fun job => job.originalSocket) = [8] ∧
      OnlyLive (run serveStep (Serving.init fun r => localCapacity r) politeRun) ∧
      (run serveStep (Serving.init fun r => localCapacity r)
        politeRun).server.tableNodejobs.toList = [] := by
  have hRun : Meets serveStep (fun s e => Enabled s e ∧ NoneQueued s e)
      (Serving.init fun r => localCapacity r) politeRun := by decide +kernel
  have hClosed : (run serveStep (Serving.init fun r => localCapacity r) politeRun).opens = [] := by
    decide +kernel
  obtain ⟨hLive, -, -, hEmpty⟩ := sockets_stay_live _ politeRun hRun
  exact ⟨hRun, by decide +kernel, by decide +kernel, hLive, (hEmpty hClosed).2⟩

/-- Job 2 waits behind job 1 on descriptor 8; its connection closes, and then
the connection of job 1 closes too. -/
def closedPeerRun : List ServerEvent :=
  [.accept 7, .line 7 "RESERVE 1 cpu 4\n".toList noPeers,
    .accept 8, .line 8 "RESERVE 2 cpu 4\n".toList noPeers,
    .disconnect 8 noPeers, .disconnect 7 noPeers]

/-- The queued request of descriptor 8 outlives its connection, is granted
when job 1 leaves, and keeps all four cpus with no peer connected. -/
theorem closed_peer_keeps_capacity :
    Meets serveStep Enabled (Serving.init fun r => localCapacity r) closedPeerRun ∧
      (run serveStep (Serving.init fun r => localCapacity r) closedPeerRun).opens = [] ∧
      ((run serveStep (Serving.init fun r => localCapacity r) closedPeerRun).server.queue
        .cpu).resourcesLeft = 0 ∧
      ¬ OnlyLive (run serveStep (Serving.init fun r => localCapacity r)
        (closedPeerRun.take 5)) ∧
      ¬ OnlyLive (run serveStep (Serving.init fun r => localCapacity r) closedPeerRun) := by
  have hQueued : (((run serveStep (Serving.init fun r => localCapacity r)
      (closedPeerRun.take 5)).server.queue .cpu).requests.map fun req => req.originSocket) = [8] ∧
      (run serveStep (Serving.init fun r => localCapacity r)
        (closedPeerRun.take 5)).opens = [7] := by decide +kernel
  have hGranted : ((run serveStep (Serving.init fun r => localCapacity r)
      closedPeerRun).server.tableNodejobs.toList.map fun job => job.originalSocket) = [8] := by
    decide +kernel
  have hClosed : (run serveStep (Serving.init fun r => localCapacity r) closedPeerRun).opens =
      [] := by decide +kernel
  refine ⟨by decide +kernel, hClosed, by decide +kernel, fun hLive => ?_, fun hLive => ?_⟩
  · obtain ⟨req, hreq, hSock⟩ := List.mem_map.mp
      (hQueued.1.symm ▸ List.mem_singleton_self 8)
    have hOpen := hLive.queued .cpu req hreq
    rw [hQueued.2, hSock] at hOpen
    exact absurd hOpen (by decide)
  · obtain ⟨job, hJob, -⟩ := List.mem_map.mp
      (hGranted.symm ▸ List.mem_singleton_self 8)
    have hOpen := hLive.granted job hJob
    rw [hClosed] at hOpen
    cases hOpen

/-! ## Nobody waits for a free pool -/

/-- A RESERVE asks for no negative amount, and for no more than its pool has. -/
def AdmissibleMessage (capacity : Resource → Int) : RemoteMessage → Prop
  | .reserve _ resource amount => 0 ≤ amount ∧ amount ≤ capacity (Resource.ofName resource)
  | _ => True

instance (capacity : Resource → Int) : ∀ msg, Decidable (AdmissibleMessage capacity msg)
  | .reserve _ resource amount =>
      inferInstanceAs (Decidable (0 ≤ amount ∧ amount ≤ capacity (Resource.ofName resource)))
  | .release => isTrue trivial
  | .granted _ => isTrue trivial
  | .reject => isTrue trivial
  | .ignored => isTrue trivial

/-- The condition on a handler: it concerns lines only. -/
def Admissible (capacity : Resource → Int) : ServerEvent → Prop
  | .line _ text _ => AdmissibleMessage capacity (parseRemote text)
  | _ => True

instance (capacity : Resource → Int) : ∀ e, Decidable (Admissible capacity e)
  | .accept _ => isTrue trivial
  | .disconnect _ _ => isTrue trivial
  | .line _ text _ => inferInstanceAs (Decidable (AdmissibleMessage capacity (parseRemote text)))

/-- Everything that waits fits in an empty pool. -/
def Servable (capacity : Resource → Int) (s : ServerState) : Prop :=
  ∀ r, ∀ req ∈ (s.queue r).requests, req.amountRequested ≤ capacity r

theorem Servable.reserve {capacity : Resource → Int} {s : ServerState}
    (h : Servable capacity s) (peers : Peers) {resource : Text} (jobId : Int) {amount : Int}
    (fd : Int) (hAmount : amount ≤ capacity (Resource.ofName resource)) :
    Servable capacity (enqueueJobs peers s resource jobId amount fd).1 := by
  obtain ⟨⟨grants, hDrain⟩, -⟩ := enqueueJobs_drained peers s resource jobId amount fd
  intro r req hreq
  have hMem := hDrain.mem_queue hreq
  by_cases hr : r = Resource.ofName resource
  · subst hr
    simp only [enqueueOnly, setQueue_queue, if_true, enqueueRequest, List.mem_append,
      List.mem_singleton] at hMem
    rcases hMem with hMem | rfl
    · exact h _ req hMem
    · exact hAmount
  · simp only [enqueueOnly, setQueue_queue, hr, if_false] at hMem
    exact h r req hMem

theorem Servable.release {capacity : Resource → Int} {s : ServerState}
    (h : Servable capacity s) (peers : Peers) (fd : Int) :
    Servable capacity (releaseClientByFd peers s fd).1 := by
  rcases releaseClientByFd_cases peers s fd with ⟨-, hEq⟩ | ⟨⟨grants, hDrain⟩, -⟩
  · rw [hEq]
    exact h
  · exact fun r req hreq => h r req (hDrain.mem_queue hreq)

theorem Servable.serve {capacity : Resource → Int} {s : Serving} {e : ServerEvent}
    (h : Servable capacity s.server) (hAdmit : Admissible capacity e) :
    Servable capacity (serveStep s e).server := by
  cases e with
  | accept fd => exact h
  | disconnect fd peers => exact h.release peers fd
  | line fd text peers =>
      simp only [serveStep, ServerRun.serve, serverMessage]
      simp only [Admissible] at hAdmit
      cases hMsg : parseRemote text with
      | reserve jobId resource amount =>
          rw [hMsg] at hAdmit
          exact h.reserve peers jobId fd hAdmit.2
      | release => exact h.release peers fd
      | granted jobId => exact h
      | reject => exact h
      | ignored => exact h

/-- **Nobody waits for a fully free resource, when over-sized requests are kept
out.**  In every run whose RESERVE lines ask for no negative amount and for no more than
the capacity of the pool they name: a resource of which no record holds a unit has
an empty queue, and no request in any queue exceeds the capacity. -/
theorem free_pool_has_no_queue (capacity : Resource → Int) (es : List ServerEvent)
    (hRun : ∀ e ∈ es, Admissible capacity e) (r : Resource) :
    ((∀ job ∈ (run serveStep (Serving.init capacity) es).server.tableNodejobs.toList,
        job.granted r ≤ 0) →
      ((run serveStep (Serving.init capacity) es).server.queue r).requests = []) ∧
      ∀ req ∈ ((run serveStep (Serving.init capacity) es).server.queue r).requests,
        req.amountRequested ≤ capacity r := by
  have hInit : Servable capacity (Serving.init capacity).server := by
    intro r req hreq
    simp [Serving.init, ServerState.init, makeQueue] at hreq
  have hInv : Servable capacity (run serveStep (Serving.init capacity) es).server :=
    run_invariant (fun s : Serving => Servable capacity s.server)
      (fun s e hs he => hs.serve he) hInit (meets_of_forall hRun)
  refine ⟨?_, hInv r⟩
  intro hFree
  by_contra hWaits
  obtain ⟨job, hJob, hHolds⟩ :=
    held_of_blocked (blocked_run capacity es r) (pool_run capacity es r) (hInv r) hWaits
  have := hFree job hJob
  omega

/-- Job 1 takes three of four cpus, job 2 waits for two and gets them when job
1 leaves. -/
def handoverRun : List ServerEvent :=
  [.accept 7, .line 7 "RESERVE 1 cpu 3\n".toList noPeers,
    .accept 8, .line 8 "RESERVE 2 cpu 2\n".toList noPeers, .disconnect 7 noPeers]

/-- The condition of `free_pool_has_no_queue` on a run in which a request
waits. -/
theorem free_pool_has_no_queue_handover :
    (∀ e ∈ handoverRun, Admissible (fun r => localCapacity r) e) ∧
      ((run serveStep (Serving.init fun r => localCapacity r)
        (handoverRun.take 4)).server.queue .cpu).requests.length = 1 ∧
      ((run serveStep (Serving.init fun r => localCapacity r)
        handoverRun).server.queue .mem).requests = [] := by
  have hRun : ∀ e ∈ handoverRun, Admissible (fun r => localCapacity r) e := by
    decide +kernel
  have hFree : ∀ job ∈ (run serveStep (Serving.init fun r => localCapacity r)
      handoverRun).server.tableNodejobs.toList, job.granted .mem ≤ 0 := by decide +kernel
  exact ⟨hRun, by decide +kernel, (free_pool_has_no_queue _ handoverRun hRun .mem).1 hFree⟩

/-- A request for five of four cpus, and behind it one for a single cpu. -/
def oversizedRun : List ServerEvent :=
  [.accept 7, .line 7 "RESERVE 1 cpu 5\n".toList noPeers,
    .accept 8, .line 8 "RESERVE 2 cpu 1\n".toList noPeers]

/-- All four cpus are free, nobody holds one, and both requests wait: the first
can never be granted and the second is never looked at. -/
theorem oversized_request_blocks_free_pool :
    Meets serveStep Enabled (Serving.init fun r => localCapacity r) oversizedRun ∧
      (run serveStep (Serving.init fun r => localCapacity r)
        oversizedRun).server.tableNodejobs.toList = [] ∧
      ((run serveStep (Serving.init fun r => localCapacity r) oversizedRun).server.queue
        .cpu).resourcesLeft = localCapacity .cpu ∧
      (((run serveStep (Serving.init fun r => localCapacity r) oversizedRun).server.queue
        .cpu).requests.map fun req => req.amountRequested) = [5, 1] := by
  decide +kernel

end ResourceAgent.Ports.ServerRun
