import ResourceAgent.Ports.OneShot

/-!
# Every source stays watched

A source that is reported and not armed again is never reported again.  `Tended` says where a
registered connection can be: armed for input; in the hands of a worker, whose loop will
arm it or close it; or armed or reported for output, and then `send_request` arms it only if
the index of connections has a job for it.

So the index entry of a connection that is not yet writable must not go away while the
connection stays.  JOB_RELEASE and the timeout sweep close the connection with it; only
replacing a job with a request in flight would leave it behind.

Nothing is said about what a connection is armed for.  A worker that had the descriptor in
hand before it was closed and dialled again arms it for input, and the RESERVE that was to
be sent on it when it became writable is then not sent.
-/

namespace ResourceAgent.Ports.Attention

open ResourceAgent.Ports.HashTable
open ResourceAgent.Ports.Records
open ResourceAgent.Ports.Wire
open ResourceAgent.Ports.Client
open ResourceAgent.Ports.Reservation
open ResourceAgent.Ports.Framing
open ResourceAgent.Ports.EventLoop
open ResourceAgent.Ports.ErlangChannel
open ResourceAgent.Ports.Ownership
open ResourceAgent.Ports.Replacement
open ResourceAgent.Ports.OneShot
open ResourceAgent.Ports.OneShot.Reactor
open ResourceAgent.Verified.CText
open ResourceAgent.Verified.Runs

/-! ## Index entries that stay -/

section

variable {s : ClientState} {fd : Int}

/-- Asking keeps the entries of the descriptors that are in use. -/
theorem indexed_ask (h : Indexed s fd) {dial : Dial} (job : LocalJob)
    (hDial : ∀ fd', dial = .epollFails fd' → (fd' : Int) ≠ fd) :
    Indexed (askForNextResource dial s job).1 fd := by
  obtain ⟨e, he, hFd⟩ := h
  have hInsert : ∀ (fd' : Nat) (t : ClientState), e ∈ t.entries →
      Indexed (t.insertEntry fd' job.addr) fd := by
    intro fd' t he
    by_cases hSame : (fd' : Int) = fd
    · exact ⟨⟨fd', job.addr⟩, ClientState.mem_entries_insertEntry.mpr (.inl rfl), hSame⟩
    · refine ⟨e, ClientState.mem_entries_insertEntry.mpr (.inr ⟨he, ?_⟩), hFd⟩
      rw [hFd]
      exact fun hEq => hSame hEq.symm
  cases hNext : job.nextReq with
  | nil =>
      simp only [askForNextResource, hNext]
      exact ⟨e, he, hFd⟩
  | cons req rest =>
      cases dial with
      | epollFails fd' =>
          simp only [askForNextResource, hNext]
          obtain ⟨e', he', hFd'⟩ := hInsert fd' (s.writeJob { job with originSocket := fd' }) he
          refine ⟨e', ClientState.mem_entries_removeEntry.mpr ⟨he', ?_⟩, hFd'⟩
          rw [hFd']
          exact (hDial fd' rfl).symm
      | connected fd' =>
          simp only [askForNextResource, hNext]
          exact hInsert fd' _ he
      | _ =>
          simp only [askForNextResource, hNext]
          exact ⟨e, he, hFd⟩

theorem indexed_tearDown (h : Indexed s fd) (job : LocalJob) :
    Indexed (tearDown s job).1 fd ∨ .close fd ∈ (tearDown s job).2 := by
  obtain ⟨e, he, hFd⟩ := h
  unfold tearDown
  split
  · by_cases hSame : fd = job.originSocket
    · exact .inr (by simp [hSame])
    · exact .inl ⟨e, ClientState.mem_entries_removeEntry.mpr ⟨he, hFd.trans_ne hSame⟩, hFd⟩
  · exact .inl ⟨e, he, hFd⟩

theorem indexed_disconnect (h : Indexed s fd) {fd' : Int} (hNe : fd' ≠ fd) :
    Indexed (handleOutboundDisconnect s fd').1 fd := by
  obtain ⟨e, he, hFd⟩ := h
  unfold handleOutboundDisconnect
  cases s.owner fd' with
  | none => exact ⟨e, he, hFd⟩
  | some job =>
      refine ⟨e, ?_, hFd⟩
      change e ∈ (s.removeEntry fd').entries
      exact ClientState.mem_entries_removeEntry.mpr ⟨he, hFd.trans_ne hNe.symm⟩

theorem indexed_line (h : Indexed s fd) (now : Int) {dial : Dial} {fd' : Int} (m : RemoteMessage)
    (hNe : fd' ≠ fd) (hDial : ∀ d, dial = .epollFails d → (d : Int) ≠ fd) :
    Indexed (clientToMyserver now dial s fd' m).1 fd := by
  cases m with
  | granted jobId =>
      simp only [clientToMyserver]
      cases s.owner fd' with
      | none => exact h
      | some job =>
          by_cases hId : job.jobId = jobId
          · simp only [hId, if_true]
            refine indexed_ask ?_ _ hDial
            obtain ⟨e, he, hFd⟩ := h
            exact ⟨e, ClientState.mem_entries_removeEntry.mpr ⟨he, hFd.trans_ne hNe.symm⟩, hFd⟩
          · simp only [hId, if_false]
            exact h
  | reject => exact indexed_disconnect h hNe
  | _ => exact h

/-- A command keeps an entry, or closes its descriptor. -/
theorem indexed_erlang (h : Indexed s fd) (timer : Int) (nodes : Table nodeCallbacks) {dial : Dial}
    (c : ErlangCommand) (hDial : ∀ d, dial = .epollFails d → (d : Int) ≠ fd) :
    Indexed (erlangToC nodes timer dial s c).1 fd ∨
      .close fd ∈ (erlangToC nodes timer dial s c).2 := by
  cases c with
  | jobRequest jobId destinations =>
      cases destinations with
      | nil => exact .inl h
      | cons token tokens =>
          exact .inl (indexed_ask (by simpa [Indexed] using h) _ hDial)
  | jobRelease jobId =>
      simp only [erlangToC]
      cases s.findJob (atoi jobId) with
      | none => exact .inl h
      | some job =>
          refine (indexed_tearDown h job).imp (fun h => ?_) fun h => List.mem_append_left _ h
          simpa [Indexed, releaseResources] using h
  | jobStatus jobId =>
      simp only [erlangToC]
      cases s.findJob (atoi jobId) with
      | none => exact .inl h
      | some job => by_cases hNext : job.nextReq = [] <;> simp [hNext, h]
  | getNodes => exact .inl h
  | ignored => exact .inl h

theorem indexed_timeOut (h : Indexed s fd) (jobId : Int) :
    Indexed (timeOut [jobId] s).1 fd ∨ .close fd ∈ (timeOut [jobId] s).2 := by
  simp only [timeOut]
  cases s.findJob jobId with
  | none => exact .inl h
  | some job =>
      refine (indexed_tearDown h job).imp (fun h => ?_) fun h => ?_
      · simpa [Indexed, releaseResources] using h
      · simp [h]

end

/-! ## A turn -/

section

variable {W : Type} [DecidableEq W] {p : Process W} {w : W} {env : Env}

/-- A turn keeps the entry of a descriptor that is not the one it reads, or closes it. -/
theorem indexed_turn {fd : Int} (h : Indexed p.client fd) (hHandler : p.handler w ≠ .remote fd)
    (hDial : ∀ d, env.dial = .epollFails d → (d : Int) ≠ fd) :
    Indexed (turn p w env).client fd ∨ .close fd ∈ turnEffects p w env := by
  cases hw : p.handler w with
  | sweep ids =>
      cases ids with
      | nil =>
          simp only [EventLoop.turn, hw]
          exact .inl h
      | cons id ids =>
          simp only [EventLoop.turn, turnEffects, hw]
          exact indexed_timeOut h id
  | erlang fd' =>
      simp only [EventLoop.turn, turnEffects, hw]
      cases (p.read fd' env).2.2 with
      | line text => exact indexed_erlang h env.now env.nodes _ hDial
      | more => exact .inl h
      | closed => exact .inl h
  | remote fd' =>
      have hNe : fd' ≠ fd := fun hSame => hHandler (hw.trans (by rw [hSame]))
      simp only [EventLoop.turn, turnEffects, hw]
      cases (p.read fd' env).2.2 with
      | line text =>
          obtain ⟨grantedOn, hNoted⟩ := (p.hear fd' env).noteGrant_eq fd' text
          simp only [hNoted]
          exact .inl (indexed_line h env.now _ hNe hDial)
      | more => exact .inl h
      | closed => exact .inl (indexed_disconnect h hNe)
  | _ =>
      simp only [EventLoop.turn, hw]
      exact .inl h

/-- In a turn that handles a line of the scheduler, no job with a request in flight is
replaced; and the connection that ends is the one `erlangfd` leads to. -/
def Settled (p : Process W) (w : W) (env : Env) : Prop :=
  match p.handler w with
  | .erlang fd =>
      match (p.read fd env).2.2 with
      | .line text => ReplacesIdle p.client text
      | .more => True
      | .closed => p.erlangfd = fd
  | _ => True

instance : Decidable (Settled p w env) := by
  unfold Settled
  split
  · split <;> infer_instance
  · infer_instance

theorem tidy_turn (hTidy : Tidy p.client) (hSettled : Settled p w env) :
    Tidy (turn p w env).client := by
  cases hw : p.handler w with
  | sweep ids =>
      cases ids with
      | nil =>
          simp only [EventLoop.turn, hw]
          exact hTidy
      | cons id ids =>
          simp only [EventLoop.turn, hw, timeOut]
          cases hFind : p.client.findJob id with
          | none => exact hTidy
          | some job =>
              have hJob := (ClientState.findJob_eq_some.mp hFind).1
              have hMove : Move (.release job.jobId) p.client _ _ :=
                .release hJob rfl (tearDown_release_changed hTidy hJob)
              exact hMove.tidy hTidy
  | erlang fd =>
      simp only [Settled, hw] at hSettled
      simp only [EventLoop.turn, hw]
      cases hRead : (p.read fd env).2.2 with
      | line text =>
          simp only [hRead] at hSettled
          exact tidy_erlang hTidy hSettled env.now env.nodes env.dial
      | more => exact hTidy
      | closed => exact hTidy
  | remote fd =>
      simp only [EventLoop.turn, hw]
      cases (p.read fd env).2.2 with
      | line text =>
          obtain ⟨grantedOn, hNoted⟩ := (p.hear fd env).noteGrant_eq fd text
          simp only [hNoted]
          exact tidy_orderly hTidy (e := .line fd text env.now env.dial) trivial
      | more => exact hTidy
      | closed => exact tidy_orderly hTidy (e := .disconnect fd) trivial
  | _ =>
      simp only [EventLoop.turn, hw]
      exact hTidy

end

/-! ## Where a source can be -/

section

variable {W : Type} [DecidableEq W] {r : Reactor W}

/-- A worker has `fd` in hand, and will arm it again or close it. -/
def InHand (r : Reactor W) (fd : Int) : Prop :=
  ∃ w, .connection fd ∈ serving (r.process.handler w) ∨ ⟨.connection fd, false⟩ ∈ r.events w

/-- `fd` is armed or in hand; if it is for output, a job waits on it. -/
def Tended (r : Reactor W) (fd : Int) : Prop :=
  r.interest (.connection fd) = .input ∨ InHand r fd ∨
    (Indexed r.process.client fd ∧
      (r.interest (.connection fd) = .output ∨ ∃ w, ⟨.connection fd, true⟩ ∈ r.events w))

/-- A timer is armed, or a worker has it in hand. -/
def Ticking (r : Reactor W) (timer : Source) : Prop :=
  r.interest timer = .input ∨ ∃ w, timer ∈ r.held w

/-- The connections are settled, and `read` of a timer does not fail. -/
def Steady (r : Reactor W) : ReactorEvent W → Prop
  | .next _ readFails _ => readFails = false
  | .turn w env => Settled r.process w env
  | _ => True

instance (r : Reactor W) : ∀ e, Decidable (Steady r e)
  | .next _ readFails _ => instDecidableEqBool readFails false
  | .turn w env => inferInstanceAs (Decidable (Settled r.process w env))
  | .wait _ _ => .isTrue trivial
  | .accept _ _ => .isTrue trivial
  | .assign _ => .isTrue trivial
  | .connectClient _ _ => .isTrue trivial

structure Attentive (r : Reactor W) : Prop where
  tidy : Tidy r.process.client
  registered : Registered r.process.kernel
  tended : ∀ fd, r.process.kernel.monitored fd = true → Tended r fd
  broadcast : Ticking r .broadcastTimer
  timeout : Ticking r .timeoutTimer

omit [DecidableEq W] in
theorem attentive_start (capacity : Resource → Int) :
    Attentive (Reactor.start (W := W) capacity) where
  tidy := tidy_init
  registered _ hMonitored := nomatch hMonitored
  tended _ hMonitored := nomatch hMonitored
  broadcast := .inl rfl
  timeout := .inl rfl

/-- `epoll_wait` moves what is armed into the hands of a worker. -/
theorem Attentive.wait (h : Attentive r) {w : W} {ready : List Ready}
    (hEvents : r.events w = []) (hReports : Reports r ready) :
    Attentive (reactorStep r (.wait w ready)) := by
  have hOld : ∀ {w' : W} {e : Ready}, e ∈ r.events w' →
      e ∈ (reactorStep r (.wait w ready)).events w' := by
    intro w' e he
    have hNe : w' ≠ w := by
      rintro rfl
      rw [hEvents] at he
      cases he
    simpa only [reactorStep, Function.update_of_ne hNe] using he
  have hNew : ∀ {e : Ready}, e ∈ ready → e ∈ (reactorStep r (.wait w ready)).events w := by
    intro e he
    simpa only [reactorStep, Function.update_self] using he
  have hKept : ∀ {source : Source}, source ∉ ready.map Ready.source →
      (reactorStep r (.wait w ready)).interest source = r.interest source := by
    intro source hSource
    simp only [reactorStep, if_neg hSource]
  have hTicking : ∀ timer, Ticking r timer → Ticking (reactorStep r (.wait w ready)) timer := by
    intro timer hTimer
    by_cases hReady : timer ∈ ready.map Ready.source
    · obtain ⟨e, he, hSource⟩ := List.mem_map.mp hReady
      exact .inr ⟨w, List.mem_append_right _ (List.mem_map.mpr ⟨e, hNew he, hSource⟩)⟩
    · rcases hTimer with hArmed | ⟨w', hHeld⟩
      · exact .inl ((hKept hReady).trans hArmed)
      · refine .inr ⟨w', ?_⟩
        rcases List.mem_append.mp hHeld with hServing | hEvent
        · exact List.mem_append_left _ hServing
        · obtain ⟨e, he, hSource⟩ := List.mem_map.mp hEvent
          exact List.mem_append_right _ (List.mem_map.mpr ⟨e, hOld he, hSource⟩)
  refine ⟨h.tidy, h.registered, fun fd hMonitored => ?_, hTicking _ h.broadcast,
    hTicking _ h.timeout⟩
  -- what is reported is in the hands of this worker now
  by_cases hReady : .connection fd ∈ ready.map Ready.source
  · obtain ⟨⟨source, out⟩, he, hSource⟩ := List.mem_map.mp hReady
    cases hSource
    cases out with
    | false => exact .inr (.inl ⟨w, .inr (hNew he)⟩)
    | true =>
        have hOutput := (hReports.2.2 _ he).2.2 rfl
        rcases h.tended fd hMonitored with hArmed | ⟨w', hHand⟩ | ⟨hIndexed, -⟩
        · rw [hOutput] at hArmed
          cases hArmed
        · exact .inr (.inl ⟨w', hHand.imp id hOld⟩)
        · exact .inr (.inr ⟨hIndexed, .inr ⟨w, hNew he⟩⟩)
  · rcases h.tended fd hMonitored with hArmed | ⟨w', hHand⟩ | ⟨hIndexed, hArmed | ⟨w', he⟩⟩
    · exact .inl ((hKept hReady).trans hArmed)
    · exact .inr (.inl ⟨w', hHand.imp id hOld⟩)
    · exact .inr (.inr ⟨hIndexed, .inl ((hKept hReady).trans hArmed)⟩)
    · exact .inr (.inr ⟨hIndexed, .inr ⟨w', hOld he⟩⟩)

omit [DecidableEq W] in
theorem Tended.same {q : Reactor W} {fd : Int} (h : Tended r fd)
    (hClient : q.process.client = r.process.client)
    (hHandler : q.process.handler = r.process.handler) (hEvents : q.events = r.events)
    (hInterest : q.interest (.connection fd) = r.interest (.connection fd)) : Tended q fd := by
  simp only [Tended, InHand, hClient, hHandler, hEvents, hInterest]
  exact h

omit [DecidableEq W] in
theorem Ticking.same {q : Reactor W} {timer : Source} (h : Ticking r timer)
    (hHandler : q.process.handler = r.process.handler) (hEvents : q.events = r.events)
    (hInterest : q.interest timer = r.interest timer) : Ticking q timer := by
  simp only [Ticking, held, hHandler, hEvents, hInterest]
  exact h

omit [DecidableEq W] in
theorem interest_added_timer (accepted : Accepted) {timer : Source}
    (hTimer : ∀ fd, timer ≠ .connection fd) :
    (r.added accepted).interest timer = r.interest timer := by
  cases accepted with
  | added fd => exact interest_arm_of_ne (hTimer _)
  | _ => rfl

omit [DecidableEq W] in
/-- A new connection is armed. -/
theorem Attentive.accept (h : Attentive r) {q : Reactor W} {accepted : Accepted}
    (hProcess : q.process = r.process.accept accepted) (hInterest : q.interest = r.interest)
    (hEvents : q.events = r.events) : Attentive (q.added accepted) := by
  obtain ⟨kernel, hAccept⟩ := r.process.accept_eq accepted
  have hTimers : ∀ timer, (∀ fd, timer ≠ .connection fd) → Ticking r timer →
      Ticking (q.added accepted) timer := by
    intro timer hTimer hTicking
    refine hTicking.same ?_ ?_ ?_
    · rw [Reactor.process, added_channel, ← Reactor.process, hProcess, hAccept]
    · rw [added_events, hEvents]
    · rw [interest_added_timer accepted hTimer, hInterest]
  have hOld : ∀ fd, Tended r fd →
      (q.added accepted).interest (.connection fd) = q.interest (.connection fd) →
      Tended (q.added accepted) fd := by
    intro fd hTended hSame
    refine hTended.same ?_ ?_ ?_ ?_
    · rw [Reactor.process, added_channel, ← Reactor.process, hProcess, hAccept]
    · rw [Reactor.process, added_channel, ← Reactor.process, hProcess, hAccept]
    · rw [added_events, hEvents]
    · rw [hSame, hInterest]
  have hTidy : Tidy (q.added accepted).process.client := by
    rw [Reactor.process, added_channel, ← Reactor.process, hProcess, hAccept]
    exact h.tidy
  have hKernel : (q.added accepted).process.kernel = (r.process.accept accepted).kernel := by
    rw [Reactor.process, added_channel, ← Reactor.process, hProcess]
  refine ⟨hTidy, ?_, fun fd hMonitored => ?_, hTimers _ (by simp) h.broadcast,
    hTimers _ (by simp) h.timeout⟩
  · rw [hKernel]
    cases accepted with
    | refused => exact h.registered
    | epollFails fd => exact (h.registered.openFile fd).closeFile fd
    | added fd =>
        refine (h.registered.openFile fd).monitor fun _ => ?_
        rw [Kernel.files_openFile_self]
        simp
  · rw [hKernel] at hMonitored
    cases accepted with
    | refused => exact hOld fd (h.tended fd hMonitored) rfl
    | epollFails fd' =>
        have hNe : fd ≠ fd' := by
          rintro rfl
          simp [Process.accept, Kernel.closeFile] at hMonitored
        simp only [Process.accept, Kernel.closeFile, Function.update_of_ne hNe] at hMonitored
        exact hOld fd (h.tended fd hMonitored) rfl
    | added fd' =>
        by_cases hSame : fd = fd'
        · subst hSame
          exact .inl (Function.update_self ..)
        · simp only [Process.accept, Kernel.monitor, Function.update_of_ne hSame] at hMonitored
          refine hOld fd (h.tended fd hMonitored) (interest_arm_of_ne fun hSource => ?_)
          cases hSource
          exact hSame rfl

/-- What a worker has in its array when it has taken out the first element. -/
theorem mem_popped {w w' : W} {e e' : Ready} {rest : List Ready} (hEvents : r.events w = e :: rest)
    (he : e' ∈ r.events w') (hNe : e' ≠ e) : e' ∈ Function.update r.events w rest w' := by
  by_cases hw : w' = w
  · subst hw
    rw [hEvents] at he
    rw [Function.update_self]
    exact (List.mem_cons.mp he).resolve_left hNe
  · rwa [Function.update_of_ne hw]

/-- A worker that was idle comes to an element of another source. -/
theorem Tended.pop {q : Reactor W} {w : W} {e : Ready} {rest : List Ready} {fd : Int}
    (h : Tended r fd) (hIdle : r.process.handler w = .idle) (hEvents : r.events w = e :: rest)
    (hNe : e.source ≠ .connection fd) (hClient : q.process.client = r.process.client)
    (hHandler : ∀ w', w' ≠ w → q.process.handler w' = r.process.handler w')
    (hRest : q.events = Function.update r.events w rest)
    (hInterest : q.interest (.connection fd) = r.interest (.connection fd)) : Tended q fd := by
  have hStays : ∀ {w' : W} {out : Bool}, ⟨.connection fd, out⟩ ∈ r.events w' →
      ⟨.connection fd, out⟩ ∈ q.events w' := by
    intro w' out he
    rw [hRest]
    refine mem_popped hEvents he fun hSame => hNe ?_
    rw [← hSame]
  rcases h with hArmed | ⟨w', hServing | he⟩ | ⟨hIndexed, hArmed | ⟨w', he⟩⟩
  · exact .inl (hInterest.trans hArmed)
  · refine .inr (.inl ⟨w', .inl ?_⟩)
    rw [hHandler w' fun hw => ?_]
    · exact hServing
    · rw [hw, hIdle] at hServing
      cases hServing
  · exact .inr (.inl ⟨w', .inr (hStays he)⟩)
  · exact .inr (.inr ⟨hClient ▸ hIndexed, .inl (hInterest.trans hArmed)⟩)
  · exact .inr (.inr ⟨hClient ▸ hIndexed, .inr ⟨w', hStays he⟩⟩)

theorem Ticking.pop {q : Reactor W} {w : W} {e : Ready} {rest : List Ready} {timer : Source}
    (h : Ticking r timer) (hIdle : r.process.handler w = .idle) (hEvents : r.events w = e :: rest)
    (hNe : e.source ≠ timer)
    (hHandler : ∀ w', w' ≠ w → q.process.handler w' = r.process.handler w')
    (hRest : q.events = Function.update r.events w rest)
    (hInterest : q.interest timer = r.interest timer) : Ticking q timer := by
  rcases h with hArmed | ⟨w', hHeld⟩
  · exact .inl (hInterest.trans hArmed)
  · refine .inr ⟨w', ?_⟩
    rcases List.mem_append.mp hHeld with hServing | hEvent
    · refine List.mem_append_left _ ?_
      rw [hHandler w' fun hw => ?_]
      · exact hServing
      · rw [hw, hIdle] at hServing
        cases hServing
    · obtain ⟨e', he, hSource⟩ := List.mem_map.mp hEvent
      refine List.mem_append_right _ (List.mem_map.mpr ⟨e', ?_, hSource⟩)
      rw [hRest]
      exact mem_popped hEvents he fun hSame => hNe (by rw [← hSame, hSource])

/-- A job that waits on `fd` has a RESERVE to send. -/
theorem sendRequest_indexed {s : ClientState} (hTidy : Tidy s) {fd : Int} (h : Indexed s fd) :
    ∃ line, (sendRequest s fd).2 = [.send fd line, .epollMod fd] := by
  obtain ⟨⟨fd', addr⟩, he, rfl⟩ := h
  obtain ⟨-, job, hJob, hAddr, hNext, -⟩ := hTidy.entries _ he
  have hOwner : s.owner fd' = some job := by
    refine (ClientState.owner_eq_some hTidy.addrKeys).mpr ⟨?_, hJob⟩
    rw [hAddr]
    exact he
  obtain ⟨req, rest, hReqs⟩ := List.exists_cons_of_ne_nil hNext
  refine ⟨reserveLine job.jobId req.type req.amount, ?_⟩
  simp only [sendRequest, hOwner, hReqs]

theorem Attentive.next (h : Attentive r) {w : W} {readFails : Bool} {now : Int}
    (hIdle : r.process.handler w = .idle) (hReads : readFails = false) :
    Attentive (reactorStep r (.next w readFails now)) := by
  simp only [reactorStep]
  split
  · exact h
  rename_i e rest hEvents
  subst hReads
  obtain ⟨source, out⟩ := e
  set p : Reactor W := { r with events := Function.update r.events w rest } with hp
  cases source with
  | broadcastTimer =>
      have hEq : p.dispatch w false now ⟨.broadcastTimer, out⟩ = p.arm .broadcastTimer .input := rfl
      rw [hEq]
      refine ⟨h.tidy, h.registered, fun fd hMonitored => ?_,
        .inl (interest_arm_self _ _), ?_⟩
      · exact (h.tended fd hMonitored).pop hIdle hEvents (by simp) rfl (fun _ _ => rfl) rfl
          (interest_arm_of_ne (by simp))
      · exact h.timeout.pop hIdle hEvents (by simp) (fun _ _ => rfl) rfl
          (interest_arm_of_ne (by simp))
  | timeoutTimer =>
      have hEq : p.dispatch w false now ⟨.timeoutTimer, out⟩ =
          { p with channel := channelStep p.channel (.loop (.tick w now)) } := act_eq rfl
      have hOthers : ∀ w', w' ≠ w →
          (p.process.setHandler w (.sweep (collect now p.process.client))).handler w' =
            r.process.handler w' :=
        fun w' hw => Function.update_of_ne hw ..
      rw [hEq]
      refine ⟨h.tidy, h.registered, fun fd hMonitored => ?_, ?_, .inr ⟨w, ?_⟩⟩
      · exact (h.tended fd hMonitored).pop hIdle hEvents (by simp) rfl hOthers rfl rfl
      · exact h.broadcast.pop hIdle hEvents (by simp) hOthers rfl rfl
      · refine List.mem_append_left _ ?_
        simp [channelStep, loopStep, Process.setHandler, serving]
  | connection fd =>
      have hOld : p.process = r.process := rfl
      cases dispatched p w false now fd out with
      | reads next hNext _ hEq =>
          rw [hEq]
          have hOthers : ∀ w', w' ≠ w →
              (p.process.setHandler w next).handler w' = r.process.handler w' :=
            fun w' hw => Function.update_of_ne hw ..
          refine ⟨h.tidy, h.registered, fun fd' hMonitored => ?_, ?_, ?_⟩
          · by_cases hSame : fd = fd'
            · refine .inr (.inl ⟨w, .inl ?_⟩)
              rcases hNext with rfl | rfl <;> simp [Process.setHandler, serving, hSame]
            · exact (h.tended fd' hMonitored).pop hIdle hEvents (by simpa using hSame) rfl hOthers
                rfl rfl
          · exact h.broadcast.pop hIdle hEvents (by simp) hOthers rfl rfl
          · exact h.timeout.pop hIdle hEvents (by simp) hOthers rfl rfl
      | sends line _ _ hEq =>
          rw [hEq]
          have hProcess : (p.rearm (.connection fd)).process = r.process := by
            rw [Reactor.process, rearm_channel]
          have hKept : ∀ source, source ≠ .connection fd →
              (p.rearm (.connection fd)).interest source = r.interest source :=
            fun source hSource => interest_rearm_of_ne hSource
          refine ⟨hProcess ▸ h.tidy, hProcess ▸ h.registered, fun fd' hMonitored => ?_, ?_, ?_⟩
          · by_cases hSame : fd = fd'
            · subst hSame
              rw [hProcess] at hMonitored
              exact .inl (interest_rearm_self hMonitored)
            · refine (h.tended fd' (hProcess ▸ hMonitored)).pop hIdle hEvents (by simpa using hSame)
                (by rw [hProcess]) (fun _ _ => by rw [hProcess]) (rearm_events _) (hKept _ ?_)
              simpa using fun hSource => hSame hSource.symm
          · exact h.broadcast.pop hIdle hEvents (by simp) (fun _ _ => by rw [hProcess])
              (rearm_events _) (hKept _ (by simp))
          · exact h.timeout.pop hIdle hEvents (by simp) (fun _ _ => by rw [hProcess])
              (rearm_events _) (hKept _ (by simp))
      | skips hOut hNothing _ hEq =>
          rw [hEq]
          refine ⟨h.tidy, h.registered, fun fd' hMonitored => ?_, ?_, ?_⟩
          · by_cases hSame : fd = fd'
            · subst hSame
              -- nobody waits on `fd`, so the element was not what kept it tended
              have hNone : ¬ Indexed r.process.client fd := by
                intro hIndexed
                obtain ⟨line, hSent⟩ := sendRequest_indexed h.tidy hIndexed
                rw [hOld, hSent] at hNothing
                cases hNothing
              rcases h.tended fd hMonitored with hArmed | ⟨w', hServing | he⟩ | ⟨hIndexed, -⟩
              · exact .inl hArmed
              · exact .inr (.inl ⟨w', .inl hServing⟩)
              · refine .inr (.inl ⟨w', .inr (mem_popped hEvents he ?_)⟩)
                simp [hOut]
              · exact absurd hIndexed hNone
            · exact (h.tended fd' hMonitored).pop hIdle hEvents (by simpa using hSame) rfl
                (fun _ _ => rfl) rfl rfl
          · exact h.broadcast.pop hIdle hEvents (by simp) (fun _ _ => rfl) rfl rfl
          · exact h.timeout.pop hIdle hEvents (by simp) (fun _ _ => rfl) rfl rfl

/-- The turn alone: what it does not leave tended, it is about to re-arm. -/
theorem Attentive.tended_turn (h : Attentive r) {w : W} {env : Env}
    (hFree : r.process.kernel.Free env.dial) (hSettled : Settled r.process w env) {fd : Int}
    (hMonitored : (turn r.process w env).kernel.monitored fd = true) :
    Tended (r.act (.turn w env)) fd ∨ r.restart w env = some (.connection fd) := by
  obtain ⟨hHandler, hKernel, -⟩ := turn_spec r.process w env
  have hArming := arming_turn r.process w env
  have hProcess : (r.act (.turn w env)).process = turn r.process w env := act_process _
  have hInterest : (r.act (.turn w env)).interest (.connection fd) =
      r.interest (.connection fd) ∨ .epollAdd fd ∈ turnEffects r.process w env := by
    rcases @interest_performAll _
      { r with channel := channelStep r.channel (.loop (.turn w env)) } (.connection fd)
      (turnEffects r.process w env) with hSame | ⟨fd', hSource, ⟨hAdd, -⟩ | ⟨hMod, -⟩⟩
    · exact .inl hSame
    · cases hSource
      exact .inr hAdd
    · exact absurd hMod (hArming.not_mod fd')
  by_cases hAdd : .epollAdd fd ∈ turnEffects r.process w env
  · have hArmed : (r.act (.turn w env)).interest (.connection fd) ≠ .off := interest_of_add hAdd
    refine .inl ?_
    cases hCase : (r.act (.turn w env)).interest (.connection fd) with
    | off => exact absurd hCase hArmed
    | input => exact .inl hCase
    | output => exact .inr (.inr ⟨hProcess ▸ hArming.add hAdd, .inl hCase⟩)
  · replace hInterest := hInterest.resolve_right hAdd
    rw [hKernel] at hMonitored
    obtain ⟨hOld, hClose⟩ := (monitored_performAll hMonitored).resolve_right hAdd
    have hOpen := h.registered fd hOld
    -- the worker itself goes on with `fd`, or re-arms it, or has closed it
    have hServes : .connection fd ∈ serving (r.process.handler w) →
        Tended (r.act (.turn w env)) fd ∨ r.restart w env = some (.connection fd) := by
      intro hServing
      rcases @serving_turn _ r w env _ hServing with hNext | hRestart |
        ⟨fd', hSource, ⟨-, hRemote⟩ | ⟨hErlang, hRead, hClosed⟩⟩
      · refine .inl (.inr (.inl ⟨w, .inl ?_⟩))
        rw [hProcess, hHandler, Function.update_self]
        exact hNext
      · exact .inr hRestart
      · cases hSource
        exact absurd hRemote hClose
      · cases hSource
        simp only [Settled, hErlang, hRead] at hSettled
        rw [hSettled] at hClosed
        exact absurd hClosed hClose
    rcases h.tended fd hOld with hArmed | ⟨w', hServing | he⟩ | ⟨hIndexed, hRest⟩
    · exact .inl (.inl (hInterest.trans hArmed))
    · by_cases hw : w' = w
      · exact hServes (hw ▸ hServing)
      · refine .inl (.inr (.inl ⟨w', .inl ?_⟩))
        rw [hProcess, hHandler, Function.update_of_ne hw]
        exact hServing
    · exact .inl (.inr (.inl ⟨w', .inr (by rwa [act_events])⟩))
    · by_cases hRemote : r.process.handler w = .remote fd
      · exact hServes (by rw [hRemote]; exact List.mem_cons_self)
      · have hDial : ∀ d, env.dial = .epollFails d → (d : Int) ≠ fd := by
          rintro d hDial rfl
          rw [hDial] at hFree
          exact hOpen hFree
        have hKept := (indexed_turn hIndexed hRemote hDial).resolve_right hClose
        refine .inl (.inr (.inr ⟨hProcess ▸ hKept, ?_⟩))
        rw [hInterest, act_events]
        exact hRest

/-- The turn alone, for a timer. -/
theorem Ticking.turn {timer : Source} (h : Ticking r timer) (hTimer : ∀ fd, timer ≠ .connection fd)
    (w : W) (env : Env) :
    Ticking (r.act (.turn w env)) timer ∨ r.restart w env = some timer := by
  obtain ⟨hHandler, -, -⟩ := turn_spec r.process w env
  have hProcess : (r.act (.turn w env)).process = EventLoop.turn r.process w env := act_process _
  have hInterest : (r.act (.turn w env)).interest timer = r.interest timer := by
    rcases @interest_performAll _
      { r with channel := channelStep r.channel (.loop (.turn w env)) } timer
      (turnEffects r.process w env) with hSame | ⟨fd, hSource, -⟩
    · exact hSame
    · exact absurd hSource (hTimer fd)
  rcases h with hArmed | ⟨w', hHeld⟩
  · exact .inl (.inl (hInterest.trans hArmed))
  · rcases List.mem_append.mp hHeld with hServing | hEvent
    · by_cases hw : w' = w
      · subst hw
        rcases @serving_turn _ r w' env _ hServing with hNext | hRestart | ⟨fd, hSource, -⟩
        · refine .inl (.inr ⟨w', List.mem_append_left _ ?_⟩)
          rw [hProcess, hHandler, Function.update_self]
          exact hNext
        · exact .inr hRestart
        · exact absurd hSource (hTimer fd)
      · refine .inl (.inr ⟨w', List.mem_append_left _ ?_⟩)
        rw [hProcess, hHandler, Function.update_of_ne hw]
        exact hServing
    · refine .inl (.inr ⟨w', List.mem_append_right _ ?_⟩)
      rwa [act_events]

theorem Attentive.turn (h : Attentive r) {w : W} {env : Env}
    (hFree : r.process.kernel.Free env.dial) (hSettled : Settled r.process w env) :
    Attentive (reactorStep r (.turn w env)) := by
  have hProcess : (r.act (.turn w env)).process = EventLoop.turn r.process w env := act_process _
  have hTidy : Tidy (r.act (.turn w env)).process.client := hProcess ▸ tidy_turn h.tidy hSettled
  have hRegistered : Registered (r.act (.turn w env)).process.kernel := by
    rw [hProcess, (turn_spec r.process w env).2.1]
    exact (arming_turn r.process w env).registered h.registered
  have hTended : ∀ fd, (r.act (.turn w env)).process.kernel.monitored fd = true →
      Tended (r.act (.turn w env)) fd ∨ r.restart w env = some (.connection fd) := by
    intro fd hMonitored
    rw [hProcess] at hMonitored
    exact h.tended_turn hFree hSettled hMonitored
  have hBroadcast := h.broadcast.turn (by simp) w env
  have hTimeout := h.timeout.turn (by simp) w env
  simp only [reactorStep]
  cases hRestart : r.restart w env with
  | none =>
      simp only [hRestart, reduceCtorEq, or_false] at hTended hBroadcast hTimeout
      exact ⟨hTidy, hRegistered, hTended, hBroadcast, hTimeout⟩
  | some source =>
      have hRearmed : ((r.act (.turn w env)).rearm source).process =
          (r.act (.turn w env)).process := by
        rw [Reactor.process, rearm_channel]
      have hTimer : ∀ timer, (∀ fd, timer ≠ .connection fd) →
          Ticking (r.act (.turn w env)) timer ∨ r.restart w env = some timer →
          Ticking ((r.act (.turn w env)).rearm source) timer := by
        intro timer hNot hCase
        by_cases hSame : timer = source
        · subst hSame
          refine .inl (interest_rearm_self ?_)
          cases timer with
          | connection fd => exact absurd rfl (hNot fd)
          | _ => rfl
        · rw [hRestart, Option.some.injEq, or_iff_left (Ne.symm hSame)] at hCase
          exact hCase.same (by rw [hRearmed]) (rearm_events _) (interest_rearm_of_ne hSame)
      refine ⟨hRearmed ▸ hTidy, hRearmed ▸ hRegistered, fun fd hMonitored => ?_,
        hTimer _ (by simp) hBroadcast, hTimer _ (by simp) hTimeout⟩
      rw [hRearmed] at hMonitored
      by_cases hSame : .connection fd = source
      · subst hSame
        exact .inl (interest_rearm_self hMonitored)
      · have hCase := hTended fd hMonitored
        rw [hRestart, Option.some.injEq, or_iff_left (Ne.symm hSame)] at hCase
        exact hCase.same (by rw [hRearmed]) (by rw [hRearmed]) (rearm_events _)
          (interest_rearm_of_ne hSame)

theorem Attentive.step (h : Attentive r) {e : ReactorEvent W} (hPossible : Possible r e)
    (hSteady : Steady r e) : Attentive (reactorStep r e) := by
  cases e with
  | wait w ready => exact h.wait hPossible.2.2.1 hPossible.2.2.2
  | next w readFails now => exact h.next hPossible.2 hSteady
  | accept w accepted => exact h.accept rfl rfl rfl
  | assign w =>
      have hProcess : ∃ erlangfd, (channelStep r.channel (.assign w)).process =
          { r.process with erlangfd := erlangfd } := by
        simp only [channelStep]
        cases r.channel.assigning w with
        | none => exact ⟨r.process.erlangfd, rfl⟩
        | some fd => exact ⟨fd, rfl⟩
      obtain ⟨erlangfd, hProcess⟩ := hProcess
      refine ⟨?_, ?_, fun fd hMonitored => ?_, ?_, ?_⟩
      · simpa only [reactorStep, Reactor.process, hProcess] using h.tidy
      · simpa only [reactorStep, Reactor.process, hProcess] using h.registered
      · simp only [reactorStep, Reactor.process, hProcess] at hMonitored
        refine (h.tended fd hMonitored).same ?_ ?_ rfl rfl <;>
          simp only [reactorStep, Reactor.process, hProcess]
      · refine h.broadcast.same ?_ rfl rfl
        simp only [reactorStep, Reactor.process, hProcess]
      · refine h.timeout.same ?_ rfl rfl
        simp only [reactorStep, Reactor.process, hProcess]
  | connectClient w accepted =>
      simp only [reactorStep, act_eq (rfl : stepEffects r.process (.connectClient w accepted) = [])]
      exact h.accept rfl rfl rfl
  | turn w env => exact h.turn hPossible.2.2.1 hSteady

/-- **Every source stays watched.**  However the workers interleave, and whichever descriptors
are closed and opened again meanwhile: a registered connection is armed for input, or in the
hands of a worker that will arm it or close it, or it is armed or reported for output and a
job waits on it; and both timers are armed or in hand. -/
theorem nobody_is_forgotten {capacity : Resource → Int} {es : List (ReactorEvent W)}
    (hPossible : Meets reactorStep Possible (start capacity) es)
    (hSteady : Meets reactorStep Steady (start capacity) es) :
    (∀ fd, (run reactorStep (start capacity) es).process.kernel.monitored fd = true →
        Tended (run reactorStep (start capacity) es) fd) ∧
      Ticking (run reactorStep (start capacity) es) .broadcastTimer ∧
      Ticking (run reactorStep (start capacity) es) .timeoutTimer := by
  have hAttentive : Attentive (run reactorStep (start capacity) es) :=
    run_invariant Attentive (fun _ _ h hOk => h.step hOk.1 hOk.2) (attentive_start capacity)
      (hPossible.and hSteady)
  exact ⟨hAttentive.tended, hAttentive.broadcast, hAttentive.timeout⟩

end

/-- Job 1001 asks for a cpu on descriptor 5; while one worker is still in the scheduler's
connection, the other one sends the RESERVE and a timer fires; the grant is reported. -/
def shared : List (ReactorEvent Bool) :=
  [.accept false (.added 4), .assign false, .wait false [⟨.connection 4, false⟩],
    .next false false 0,
    .turn false (arrival (.data "JOB_REQUEST 1001 @10.0.0.1:cpu:1\n".toList) (.connected 5)),
    .wait true [⟨.timeoutTimer, false⟩, ⟨.connection 5, true⟩], .next true false 0,
    .turn false (arrival .again .noSocket), .turn true (arrival .again .noSocket),
    .next true false 0, .wait true [⟨.connection 4, false⟩, ⟨.connection 5, false⟩]]

theorem nobody_is_forgotten_shared :
    (run reactorStep (start fun _ => 0) shared).process.kernel.monitored 5 = true ∧
      Tended (run reactorStep (start fun _ => 0) shared) 5 := by
  have hPossible : Meets reactorStep Possible (start fun _ => 0) shared := by decide +kernel
  have hSteady : Meets reactorStep Steady (start fun _ => 0) shared := by decide +kernel
  have hOpen : (run reactorStep (start fun _ => 0) shared).process.kernel.monitored 5 = true := by
    decide +kernel
  exact ⟨hOpen, (nobody_is_forgotten hPossible hSteady).1 5 hOpen⟩

end ResourceAgent.Ports.Attention
