import ResourceAgent.Ports.Progress
import ResourceAgent.Ports.Workload

/-!
# Every job completes

Once the schedulers send no more jobs, what the agents and the network have left to
do is bounded, and it is done only when every job has got all its resources and has
given them back (`every_job_completes`).  Steps may be taken in any order: whatever
is done next lowers `work`, and as long as a job is left, something can be done.
That is where the absence of deadlocks comes in: jobs that all wait in queues would
wait for each other.
-/

namespace ResourceAgent.Ports.Completion

open ResourceAgent.Ports.HashTable
open ResourceAgent.Ports.Records
open ResourceAgent.Ports.Wire
open ResourceAgent.Ports.Client
open ResourceAgent.Ports.JobRequest
open ResourceAgent.Ports.Reservation
open ResourceAgent.Ports.Network
open ResourceAgent.Ports.NetInvariant
open ResourceAgent.Ports.Agreement
open ResourceAgent.Ports.Acquisition
open ResourceAgent.Ports.Deadlock
open ResourceAgent.Ports.Momentum
open ResourceAgent.Ports.Workload
open ResourceAgent.Verified.CText
open ResourceAgent.Verified.Runs
open ResourceAgent.Verified.Potential

variable {A : Type}

/-! ## Steps that bring a job further -/

/-- The scheduler releases a job that is there. -/
def releasesJob (s : ClientState) : ErlangCommand → Bool
  | .jobRelease jobId => (s.findJob (atoi jobId)).isSome
  | _ => false

theorem releasesJob_iff {s : ClientState} {command : ErlangCommand} :
    releasesJob s command = true ↔
      ∃ jobId job, command = .jobRelease jobId ∧ s.findJob (atoi jobId) = some job := by
  cases command <;> simp [releasesJob, Option.isSome_iff_exists]

/-- A connection is accepted, written to, read from or taken down, or a job that is
there is released. -/
def Advances (net : Net A) : NetEvent A → Prop
  | .erlang a instruction _ _ _ =>
      releasesJob (net.agents a).client (parseErlang instruction) = true
  | .sweep _ _ => False
  | .fail _ _ _ => False
  | _ => True

instance (net : Net A) : ∀ e, Decidable (Advances net e)
  | .erlang a instruction _ _ _ =>
      inferInstanceAs
        (Decidable (releasesJob (net.agents a).client (parseErlang instruction) = true))
  | .sweep _ _ => inferInstanceAs (Decidable False)
  | .accept _ _ _ => inferInstanceAs (Decidable True)
  | .writable _ => inferInstanceAs (Decidable True)
  | .line _ _ _ _ _ => inferInstanceAs (Decidable True)
  | .disconnect _ _ _ => inferInstanceAs (Decidable True)
  | .fail _ _ _ => inferInstanceAs (Decidable False)

/-- A step of the agents or of the network with which they get on. -/
def Progress [DecidableEq A] (net : Net A) (e : NetEvent A) : Prop :=
  Smooth net e ∧ Advances net e

instance [DecidableEq A] (net : Net A) (e : NetEvent A) : Decidable (Progress net e) :=
  inferInstanceAs (Decidable (Smooth net e ∧ Advances net e))

/-- No job is left, nothing is on its way, and every provider has all it had. -/
structure Finished (capacity : A → Resource → Int) (net : Net A) : Prop where
  jobs : ∀ a, (net.agents a).client.jobs = []
  entries : ∀ a, (net.agents a).client.entries = []
  closed : ∀ a fd, net.wires.files a fd = none
  queues : ∀ b r, ((net.agents b).server.queue r).requests = []
  records : ∀ b, (net.agents b).server.tableNodejobs.toList = []
  left : ∀ b r, ((net.agents b).server.queue r).resourcesLeft = capacity b r

variable [DecidableEq A] {capacity : A → Resource → Int} {route : Text → Int → A}
  {used : List (A × Int)} {net : Net A} {i : Nat}

/-! ## Every step spends work -/

omit [DecidableEq A] in
theorem wiresWork_answered {b : A} {grants : List Grant} {w w' : Wires A}
    (h : Answered b grants w w') : wiresWork w' ≤ wiresWork w := by
  apply total_le h.length
  intro j c c' hOld hNew
  have hFiles : FewerServers w w' := by
    intro b fd k hFile
    rwa [h.files] at hFile
  obtain ⟨d, hConn, rfl | ⟨hServed, g, rfl⟩⟩ := h.conns hNew
  · rw [hOld] at hConn
    cases hConn
    exact connWork_files hFiles
  · rw [hOld] at hConn
    cases hConn
    exact (connWork_files hFiles).trans (connWork_granting g hServed).le

omit [DecidableEq A] in
/-- A change of one connection that makes it lighter. -/
theorem wiresWork_modify_lt {w : Wires A} {f : Conn A → Conn A} {c : Conn A}
    (hConn : w.conns[i]? = some c) (hLess : connWork w i (f c) < connWork w i c) :
    wiresWork (w.modify i f) < wiresWork w := by
  have hTotal := total_modify (connWork w) f hConn
  show total (connWork w) (w.conns.modify i f) < total (connWork w) w.conns
  omega

theorem work_actServer {b : A} {r : ServerState × List Effect} {w : Wires A} :
    work used ⟨(net.actServer route b r).agents, w⟩ =
      wiresWork w + jobsWork used (clientsOf net) := by
  have hSame : clientsOf (net.actServer route b r) = clientsOf net := clientsOf_actServer r
  show wiresWork w + jobsWork used (clientsOf (net.actServer route b r)) = _
  rw [hSame]

theorem work_accept {fd : Nat} {addr : Addr} (hEnabled : Enabled net (.accept i fd addr)) :
    work used (netStep route net (.accept i fd addr)) < work used net := by
  obtain ⟨c, hConn, hEnd, hFree, -⟩ := hEnabled
  rw [Option.mem_def] at hConn
  have hFiles : ∀ {b fd' j}, (net.wires.accept i fd addr).files b fd' = some (j, .server) →
      i ≠ j → net.wires.files b fd' = some (j, .server) := by
    intro b fd' j hFile hNe
    rcases (files_accept hConn hFree).mp hFile with hOld | ⟨-, -, hNew⟩
    · exact hOld
    · cases hNew
      exact absurd rfl hNe
  have hOther : ∀ {j : Nat} {d : Conn A}, i ≠ j →
      endWork (net.wires.accept i fd addr) j d ≤ endWork net.wires j d := by
    intro j d hNe
    unfold endWork
    split
    · exact le_refl _
    · split
      · rename_i hFile
        rw [if_pos (hFiles hFile hNe)]
      · exact Nat.zero_le _
  have hLength : (net.wires.accept i fd addr).conns.length = net.wires.conns.length := by
    simp [Wires.accept, hConn, Wires.setFile, Wires.modify]
  have hSelf : connWork (net.wires.accept i fd addr) i
      { c with serverEnd := some ((fd : Int), addr) } < connWork net.wires i c := by
    have hNow : endWork (net.wires.accept i fd addr) i
        { c with serverEnd := some ((fd : Int), addr) } ≤ 1 := by
      unfold endWork
      simp only
      split <;> omega
    have hBefore : endWork net.wires i c = 2 := by
      unfold endWork
      rw [hEnd]
    unfold connWork
    simp only
    omega
  have hWires : wiresWork (net.wires.accept i fd addr) < wiresWork net.wires := by
    refine total_lt hLength ?_ hConn (conns_accept_self hConn) hSelf
    intro j d d' hOld hNew
    rcases conns_accept hConn hNew with ⟨rfl, rfl⟩ | ⟨hNe, hKept⟩
    · rw [hConn] at hOld
      cases hOld
      exact hSelf.le
    · rw [hOld] at hKept
      cases hKept
      have hEnds := hOther (d := d) hNe
      unfold connWork
      omega
  exact Nat.add_lt_add_right hWires _

theorem work_writable (hUnlocked : Unlocked capacity route used net) (hMoving : Moving net)
    (hEnabled : Enabled net (.writable i)) :
    work used (netStep route net (.writable i)) < work used net := by
  obtain ⟨c, line, hConn, hArmed, -, hWhole, hStep⟩ := netStep_writable hUnlocked hMoving hEnabled
  rw [hStep]
  have hSent : sending line c = { c with armed := false, toServer := c.toServer ++ [line] } := by
    simp [sending, Conn.push, hWhole]
  have hLess : connWork net.wires i (sending line c) < connWork net.wires i c := by
    have hEnds : endWork net.wires i { c with armed := false, toServer := c.toServer ++ [line] } =
        endWork net.wires i c := rfl
    rw [hSent]
    unfold connWork
    rw [hEnds, hArmed]
    simp only [List.length_append, List.length_singleton, Bool.false_eq_true, if_false, if_true]
    omega
  exact Nat.add_lt_add_right (wiresWork_modify_lt hConn hLess) _

omit [DecidableEq A] in
/-- A line that is read is no work any more. -/
theorem wiresWork_read {side : Side} {s : ServerState} {c : Conn A} {text : Text}
    (hConn : net.wires.conns[i]? = some c) (hLine : c.inbox side = [text]) :
    wiresWork (net.wires.modify i (Conn.read side s)) < wiresWork net.wires := by
  refine wiresWork_modify_lt hConn ?_
  have hEnds : endWork net.wires i (Conn.read side s c) ≤ endWork net.wires i c :=
    endWork_le id (read_same side s c).toStatic
  cases side with
  | client =>
      have hLine : c.toClient = [text] := hLine
      unfold connWork
      simp only [Conn.read, hLine, List.tail_cons, List.length_nil, List.length_singleton]
        at hEnds ⊢
      omega
  | server =>
      have hLine : c.toServer = [text] := hLine
      unfold connWork
      simp only [Conn.read, hLine, List.tail_cons, List.length_nil, List.length_singleton]
        at hEnds ⊢
      omega

theorem work_lineServer (hUnlocked : Unlocked capacity route used net) {now : Int} {dial : Dial}
    {names : Int → Option Addr} (hEnabled : Enabled net (.line i .server now dial names)) :
    work used (netStep route net (.line i .server now dial names)) < work used net := by
  obtain ⟨c, fd, addr, text, hConn, hFile, hEnd, hLine, hNamed, hKind⟩ :=
    lineServer_cases hUnlocked hEnabled
  have hRead : wiresWork (readLine net i .server c.server).wires < wiresWork net.wires :=
    wiresWork_read hConn hLine
  rcases hKind with ⟨hParse, hServed⟩ | ⟨hParse, hClosed⟩
  · obtain ⟨grants, -, hAnswered, -⟩ :=
      answered_reserve route hUnlocked hConn hFile hLine hParse hNamed
    rw [netStep_reserve hConn hEnd hLine hParse]
    have hWires := wiresWork_answered hAnswered
    show work used ⟨(Net.actServer route (readLine net i .server c.server) _ _).agents, _⟩ < _
    rw [work_actServer]
    exact Nat.add_lt_add_right (lt_of_le_of_lt hWires hRead) _
  · have hCoherent := coherent_readRelease hUnlocked.agreed hConn hLine hParse
    have hDead : ¬ Live (readLine net i .server c.server).wires i
        (Conn.read .server (net.agents c.server).server c) := fun hLive => hClosed hLive.1
    have hReadNamed : (readLine net i .server c.server).wires.Named c.server names :=
      (Steady.modify (read_same .server _)).named hNamed
    obtain ⟨grants, hAnswered, -⟩ := answered_release route hCoherent rfl
      (conns_modify_self hConn) hFile hDead hReadNamed
    rw [netStep_release hConn hEnd hLine hParse]
    have hWires := wiresWork_answered hAnswered
    show work used ⟨(Net.actServer route (readLine net i .server c.server) _ _).agents, _⟩ < _
    rw [work_actServer]
    exact Nat.add_lt_add_right (lt_of_le_of_lt hWires hRead) _

theorem work_disconnect (hUnlocked : Unlocked capacity route used net)
    {names : Int → Option Addr} (hEnabled : Enabled net (.disconnect i .server names)) :
    work used (netStep route net (.disconnect i .server names)) < work used net := by
  obtain ⟨c, hConn, ⟨fd, hFd, hFile⟩, -, hOver, hNamed⟩ := hEnabled
  rw [Option.mem_def] at hConn
  have hFile : net.wires.files c.server fd = some (i, .server) := hFile
  obtain ⟨-, addr, hEnd⟩ := hUnlocked.agreed.coherent.wired.at_server hFile hConn
  have hDead : ¬ Live net.wires i c := by
    rintro ⟨hOpen, hWhole⟩
    rcases hOver with hBroken | ⟨fd', hFd', hClosed⟩
    · rw [hWhole] at hBroken
      cases hBroken
    · cases hFd'
      exact hClosed hOpen
  rw [netStep_disconnect_server hConn hEnd (hUnlocked.agreed.owner_server hFile)]
  obtain ⟨grants, hAnswered, -⟩ := answered_release route
    hUnlocked.agreed.coherent rfl hConn hFile hDead hNamed
  rw [work_actServer]
  refine Nat.add_lt_add_right (lt_of_lt_of_le ?_ (wiresWork_answered hAnswered)) _
  -- the descriptor that is closed is the server end of this connection
  have hSteady : Steady net.wires (net.wires.performAll route c.server
      (releaseClientByFd (asPeers names) (net.agents c.server).server fd).2) :=
    steady_releaseClient _ _ _
  generalize net.wires.performAll route c.server
    (releaseClientByFd (asPeers names) (net.agents c.server).server fd).2 = w at hAnswered hSteady ⊢
  obtain ⟨c', hConn'⟩ : ∃ c', w.conns[i]? = some c' := by
    refine ⟨_, List.getElem?_eq_getElem ?_⟩
    rw [hAnswered.length]
    exact (List.getElem?_eq_some_iff.mp hConn).1
  obtain ⟨d, hOld, hSame⟩ := hSteady.conns hConn'
  rw [hConn] at hOld
  cases hOld
  have hLess : connWork (w.setFile c.server fd none) i c' < connWork w i c' := by
    have hNow : endWork (w.setFile c.server fd none) i c' = 0 := by
      unfold endWork
      rw [hSame.serverEnd, hEnd, hSame.server]
      simp [Wires.setFile]
    have hBefore : endWork w i c' = 1 := by
      unfold endWork
      rw [hSame.serverEnd, hEnd, hSame.server]
      simp only
      rw [if_pos]
      rw [hSteady.files]
      exact hFile
    unfold connWork
    omega
  refine total_lt rfl ?_ hConn' hConn' hLess
  intro j d d' hOld hNew
  cases hOld.symm.trans hNew
  exact connWork_files fewerServers_close

/-! ## The jobs of a client -/

section

variable {clients : A → ClientState} {a : A} {s' : ClientState} {job : LocalJob}
  {new : Option LocalJob} {dropped : List Int} {added : List FdJobEntry}

/-- A job that changes does not concern the work for the others. -/
theorem workFor_changed (hChanged : Changed (clients a) s' job.addr new dropped added)
    (hNew : ∀ x, new = some x → x.jobId = job.jobId) {y : A × Int} (hNe : y ≠ (a, job.jobId)) :
    workFor (fun x => if x = a then s' else clients x) y ≤ workFor clients y := by
  obtain ⟨x, j⟩ := y
  unfold workFor
  by_cases hAgent : x = a
  · subst hAgent
    have hNe : j ≠ job.jobId := fun hSame => hNe (by rw [hSame])
    simp only [if_true]
    cases hFind : s'.findJob j with
    | none => exact Nat.zero_le _
    | some job' =>
        obtain ⟨hJob', hId⟩ := ClientState.findJob_eq_some.mp hFind
        rcases (hChanged.jobs job').mp hJob' with hSame | ⟨hOld, -⟩
        · exact absurd (hId.symm.trans (hNew job' hSame)) hNe
        · rw [ClientState.findJob_eq_some.mpr ⟨hOld, hId⟩]
  · simp only [hAgent, if_false]
    exact le_refl _

/-- One job becomes lighter by `k`. -/
theorem jobsWork_changed (clients : A → ClientState) {k : Nat} (hJob : job ∈ (clients a).jobs)
    (hUsed : (a, job.jobId) ∈ used)
    (hChanged : Changed (clients a) s' job.addr new dropped added)
    (hNew : ∀ x, new = some x → x.jobId = job.jobId)
    (hLess : new.elim 0 jobWork + k ≤ jobWork job) :
    jobsWork used (fun x => if x = a then s' else clients x) + k ≤ jobsWork used clients := by
  have hBefore : workFor clients (a, job.jobId) = jobWork job := by
    unfold workFor
    rw [ClientState.findJob_eq_some.mpr ⟨hJob, rfl⟩, Option.elim_some]
  have hAfter : workFor (fun x => if x = a then s' else clients x) (a, job.jobId) ≤
      new.elim 0 jobWork := by
    unfold workFor
    simp only [if_true]
    cases hFind : s'.findJob job.jobId with
    | none => exact Nat.zero_le _
    | some job' =>
        obtain ⟨hJob', hId⟩ := ClientState.findJob_eq_some.mp hFind
        rcases (hChanged.jobs job').mp hJob' with hSame | ⟨hOld, hNe⟩
        · rw [hSame]
        · exact absurd (congrArg LocalJob.addr (ClientState.eq_of_jobId hOld hJob hId)) hNe
  apply sum_map_add_le ?_ hUsed (by omega)
  intro y _
  by_cases hSame : y = (a, job.jobId)
  · rw [hSame]
    omega
  · exact workFor_changed hChanged hNew hSame

end

theorem jobWork_advance {job : LocalJob} (hNext : job.nextReq ≠ []) (dial : Dial) (fd now : Int) :
    jobWork (asked dial (LocalJob.advance job fd now)).job + 12 ≤ jobWork job := by
  obtain ⟨req, rest, hCons⟩ := List.exists_cons_of_ne_nil hNext
  unfold jobWork
  rw [asked_nextReq, asked_grantedReqs]
  simp only [LocalJob.advance, hCons, List.length_cons]
  omega

theorem work_actClient {a : A} {r : ClientState × List Effect} {w : Wires A} :
    work used ⟨(net.actClient route a r).agents, w⟩ =
      wiresWork w + jobsWork used (fun x => if x = a then r.1 else clientsOf net x) := by
  have hSame : clientsOf (net.actClient route a r) =
      fun x => if x = a then r.1 else clientsOf net x := clientsOf_actClient r
  show wiresWork w + jobsWork used (clientsOf (net.actClient route a r)) = _
  rw [hSame]

theorem work_lineClient (hUnlocked : Unlocked capacity route used net) {now : Int} {d : Nat}
    {names : Int → Option Addr}
    (hEnabled : Enabled net (.line i .client now (.connected d) names)) :
    work used (netStep route net (.line i .client now (.connected d) names)) < work used net := by
  obtain ⟨c, hConn, -, -, ⟨text, hLine⟩, hFree, hKind⟩ := netStep_answer hUnlocked hEnabled
  have hRead : wiresWork (readLine net i .client c.client).wires < wiresWork net.wires :=
    wiresWork_read hConn hLine
  have hFree : (readLine net i .client c.client).wires.files c.client d = none := hFree
  rcases hKind with ⟨-, hStep⟩ | ⟨job, hJob, hEntry, hNext, hStep⟩
  · rw [hStep]
    exact Nat.add_lt_add_right hRead _
  · rw [hStep]
    have hTidy : Tidy (net.agents c.client).client := hUnlocked.agreed.tidy c.client
    have hId := LocalJob.advance_jobId job c.clientFd now
    obtain ⟨hKeys, hStored, hInt⟩ := granted_stored hTidy hJob c.clientFd now
    have hChanged := granted_asked hTidy hJob c.clientFd now (.connected d)
    have hAsked := performAll_asked route c.client hKeys hStored hInt
      (readLine net i .client c.client).wires d
    generalize askForNextResource (.connected d)
      (granted (net.agents c.client).client job c.clientFd now)
      (LocalJob.advance job c.clientFd now) = r at hChanged hAsked ⊢
    have hWires :
        wiresWork ((readLine net i .client c.client).wires.performAll route c.client r.2) ≤
        wiresWork (readLine net i .client c.client).wires + 11 := by
      rcases hAsked with hSame | ⟨req, -, -, hConnect⟩
      · rw [hSame]
        exact Nat.le_add_right _ _
      · rw [hConnect]
        exact wiresWork_connect hFree
    have hJobs : jobsWork used (fun x => if x = c.client then r.1 else clientsOf net x) + 12 ≤
        jobsWork used (clientsOf net) := by
      refine jobsWork_changed (clientsOf net) hJob
        (hUnlocked.acquiring.jobs c.client job hJob).used hChanged ?_ (jobWork_advance hNext _ _ _)
      rintro x ⟨⟩
      rw [asked_jobId, hId]
    show work used ⟨(Net.actClient route (readLine net i .client c.client) _ _).agents, _⟩ < _
    rw [work_actClient]
    show wiresWork ((readLine net i .client c.client).wires.performAll route c.client r.2) +
      jobsWork used (fun x => if x = c.client then r.1 else clientsOf net x) <
        wiresWork net.wires + jobsWork used (clientsOf net)
    omega

theorem work_finished (hUnlocked : Unlocked capacity route used net) {a : A}
    {instruction jobId : Text} {timer : Int} {nodes : Table nodeCallbacks} {dial : Dial}
    {job : LocalJob} (hParse : parseErlang instruction = .jobRelease jobId)
    (hFind : (net.agents a).client.findJob (atoi jobId) = some job) (hDone : job.nextReq = []) :
    work used (netStep route net (.erlang a instruction timer nodes dial)) < work used net := by
  obtain ⟨hJob, -⟩ := ClientState.findJob_eq_some.mp hFind
  obtain ⟨-, s', hChanged, hStep⟩ := netStep_finished route hUnlocked timer nodes dial hParse hFind
    hDone
  rw [hStep]
  show work used ⟨(Net.actClient route net _ _).agents, _⟩ < _
  rw [work_actClient]
  have hJobs : jobsWork used (fun x => if x = a then s' else clientsOf net x) + jobWork job ≤
      jobsWork used (clientsOf net) :=
    jobsWork_changed (clientsOf net) hJob (hUnlocked.acquiring.jobs a job hJob).used hChanged
      (by simp) (by simp)
  have hWires : wiresWork (net.wires.performAll route a (released job)) ≤
      wiresWork net.wires + 4 * job.grantedReqs.length := wiresWork_releaseAll _
  have hJobWork : jobWork job = 1 + 4 * job.grantedReqs.length := by
    unfold jobWork
    rw [hDone, List.length_nil]
  show wiresWork (net.wires.performAll route a (released job)) +
    jobsWork used (fun x => if x = a then s' else clientsOf net x) <
      wiresWork net.wires + jobsWork used (clientsOf net)
  omega

/-- **Every step spends work.** -/
theorem work_progress (hUnlocked : Unlocked capacity route used net) (hMoving : Moving net)
    {e : NetEvent A} (h : Progress net e) : work used (netStep route net e) < work used net := by
  obtain ⟨⟨hEnabled, hUndisturbed, hConnected⟩, hAdvances⟩ := h
  cases e with
  | erlang a instruction timer nodes dial =>
      obtain ⟨jobId, job, hParse, hFind⟩ := releasesJob_iff.mp hAdvances
      obtain ⟨hJob, hId⟩ := ClientState.findJob_eq_some.mp hFind
      have hTold := hUndisturbed.2 job.jobId (by simp [releasing, causeOf, hParse, hId])
      exact work_finished hUnlocked hParse hFind (hUnlocked.done hJob hTold)
  | sweep a now => exact hAdvances.elim
  | accept i fd addr => exact work_accept hEnabled
  | writable i => exact work_writable hUnlocked hMoving hEnabled
  | line i side now dial names =>
      cases side with
      | client =>
          obtain ⟨d, rfl⟩ := connects_iff.mp hConnected
          exact work_lineClient hUnlocked hEnabled
      | server => exact work_lineServer hUnlocked hEnabled
  | disconnect i side names =>
      cases side with
      | client => exact absurd hEnabled hUnlocked.not_disconnect_client
      | server => exact work_disconnect hUnlocked hEnabled
  | fail i keepServer keepClient => exact hAdvances.elim

/-! ## Something can be done -/

section

variable {w : Wires A}

omit [DecidableEq A] in
theorem exists_above (l : List Int) : ∃ n : Nat, ∀ x ∈ l, x < n := by
  induction l with
  | nil => exact ⟨0, by simp⟩
  | cons y l ih =>
      obtain ⟨n, hAbove⟩ := ih
      refine ⟨max n (y.toNat + 1), fun x hx => ?_⟩
      rcases List.mem_cons.mp hx with rfl | hx
      · omega
      · have := hAbove x hx
        omega

omit [DecidableEq A] in
/-- There is always a descriptor left. -/
theorem exists_free (hWired : Wired w) (a : A) : ∃ d : Nat, w.files a d = none := by
  obtain ⟨d, hAbove⟩ := exists_above
    (w.conns.map (fun c => c.clientFd) ++ w.conns.map fun c => c.serverEnd.elim 0 Prod.fst)
  refine ⟨d, ?_⟩
  cases hFile : w.files a d with
  | none => rfl
  | some x =>
      obtain ⟨i, side⟩ := x
      cases side with
      | client =>
          obtain ⟨c, hConn, -, hFd⟩ := hWired.client hFile
          have hLess := hAbove c.clientFd
            (List.mem_append_left _ (List.mem_map.mpr ⟨c, List.mem_of_getElem? hConn, rfl⟩))
          omega
      | server =>
          obtain ⟨c, addr, hConn, -, hEnd⟩ := hWired.server hFile
          have hLess := hAbove (c.serverEnd.elim 0 Prod.fst)
            (List.mem_append_right _ (List.mem_map.mpr ⟨c, List.mem_of_getElem? hConn, rfl⟩))
          rw [hEnd, Option.elim_some] at hLess
          omega

omit [DecidableEq A] in
/-- There is always a peer address left. -/
theorem exists_unused (w : Wires A) (b : A) : ∃ addr : Addr, addr.2 ≠ 0 ∧ w.Unused b addr := by
  obtain ⟨n, hAbove⟩ := exists_above (w.conns.map fun c => c.serverEnd.elim 0 fun x => x.2.2)
  refine ⟨(0, n + 1), by simp only; omega, ?_⟩
  intro i _ c hConn x hEnd _ _ hSame
  rw [Option.mem_def] at hConn hEnd
  have hLess := hAbove (c.serverEnd.elim 0 fun x => x.2.2)
    (List.mem_map.mpr ⟨c, List.mem_of_getElem? hConn, rfl⟩)
  rw [hEnd, Option.elim_some, hSame] at hLess
  simp only at hLess
  omega

/-- What `getpeername` answers on connections that have not failed. -/
def namesOf (w : Wires A) (b : A) (fd : Int) : Option Addr :=
  match w.files b fd with
  | some (i, .server) => (w.conns[i]?).bind fun c => c.serverEnd.map Prod.snd
  | _ => none

omit [DecidableEq A] in
theorem named_namesOf (w : Wires A) (b : A) : w.Named b (namesOf w b) := by
  intro i _ c hConn x hEnd _ hFile
  rw [Option.mem_def] at hConn hEnd
  left
  simp only [namesOf, hFile, hConn, hEnd, Option.bind_some, Option.map_some]

end

/-- What is the case when nothing can be done. -/
structure Halted (net : Net A) : Prop where
  accepted : ∀ {i : Nat} {c : Conn A}, net.wires.conns[i]? = some c → c.serverEnd ≠ none
  disarmed : ∀ {i : Nat} {c : Conn A}, net.wires.conns[i]? = some c →
    ClientOpen net.wires i c → c.armed = false
  heard : ∀ {i : Nat} {c : Conn A}, net.wires.conns[i]? = some c →
    ClientOpen net.wires i c → c.toClient = []
  served : ∀ {i : Nat} {c : Conn A} {fd : Int}, net.wires.conns[i]? = some c →
    net.wires.files c.server fd = some (i, .server) → c.toServer = [] ∧ ClientOpen net.wires i c
  waiting : ∀ a, ∀ job ∈ (net.agents a).client.jobs, job.nextReq ≠ []

omit [DecidableEq A] in
theorem isOpen_server (hWired : Wired net.wires) {c : Conn A} {fd : Int}
    (hConn : net.wires.conns[i]? = some c)
    (hFile : net.wires.files c.server fd = some (i, .server)) : net.wires.IsOpen i c .server := by
  obtain ⟨-, addr, hEnd⟩ := hWired.at_server hFile hConn
  exact ⟨fd, by simp [Conn.fd, hEnd], hFile⟩

theorem halted_of_no_progress (hUnlocked : Unlocked capacity route used net)
    (hMoving : Moving net) (hNone : ∀ e, ¬ Progress net e) : Halted net := by
  have hWired := hUnlocked.agreed.coherent.wired
  have hUnread : ∀ {i : Nat} {c : Conn A} {fd : Int}, net.wires.conns[i]? = some c →
      net.wires.files c.server fd = some (i, .server) → c.toServer = [] := by
    intro i c fd hConn hFile
    by_contra hLine
    refine hNone (.line i .server 0 .noSocket (namesOf net.wires c.server)) ⟨⟨?_, rfl, trivial⟩,
      trivial⟩
    exact ⟨c, hConn, isOpen_server hWired hConn hFile, hLine, trivial, named_namesOf _ _⟩
  refine ⟨?_, ?_, ?_, ?_, ?_⟩
  · intro i c hConn hEnd
    obtain ⟨fd, hFree⟩ := exists_free hWired c.server
    obtain ⟨addr, hPort, hUnused⟩ := exists_unused net.wires c.server
    refine hNone (.accept i fd addr) ⟨⟨?_, trivial, trivial⟩, trivial⟩
    exact ⟨c, hConn, hEnd, hFree, hPort, hUnused⟩
  · intro i c hConn hOpen
    by_contra hArmed
    rw [Bool.not_eq_false] at hArmed
    refine hNone (.writable i) ⟨⟨?_, trivial, trivial⟩, trivial⟩
    exact ⟨c, hConn, hArmed, _, rfl, hOpen⟩
  · intro i c hConn hOpen
    by_contra hLine
    obtain ⟨d, hFree⟩ := exists_free hWired c.client
    refine hNone (.line i .client 0 (.connected d) (namesOf net.wires c.client))
      ⟨⟨?_, rfl, rfl⟩, trivial⟩
    exact ⟨c, hConn, ⟨_, rfl, hOpen⟩, hLine, hFree, named_namesOf _ _⟩
  · intro i c fd hConn hFile
    refine ⟨hUnread hConn hFile, ?_⟩
    by_contra hClosed
    refine hNone (.disconnect i .server (namesOf net.wires c.server)) ⟨⟨?_, trivial, trivial⟩,
      trivial⟩
    exact ⟨c, hConn, isOpen_server hWired hConn hFile, hUnread hConn hFile,
      .inr ⟨_, rfl, hClosed⟩, named_namesOf _ _⟩
  · intro a job hJob hDone
    have hTidy := hUnlocked.agreed.tidy a
    have hId := hTidy.ids job hJob
    have hParse := parseErlang_finishedLine hId
    have hTold := ((hMoving.pursues a).settled job hJob).2 hDone
    have hFind : (net.agents a).client.findJob (atoi (itoa job.jobId)) = some job :=
      ClientState.findJob_eq_some.mpr ⟨hJob, (atoi_itoa hId).symm⟩
    obtain ⟨d, hFree⟩ := exists_free hWired a
    refine hNone (.erlang a (finishedLine job.jobId) 0 (tablahashCreate _) (.connected d))
      ⟨⟨hFree, ⟨rfl, ?_⟩, rfl⟩, ?_⟩
    · intro j hReleasing
      simp only [releasing, causeOf, hParse, Option.mem_def, Option.some.injEq] at hReleasing
      rw [← hReleasing, atoi_itoa hId]
      exact hTold
    · exact releasesJob_iff.mpr ⟨_, job, hParse, hFind⟩

omit [DecidableEq A] in
/-- An open connection belongs to a job that is there. -/
theorem job_of_open (hUnlocked : Unlocked capacity route used net) (hMoving : Moving net)
    {c : Conn A} (hConn : net.wires.conns[i]? = some c) (hOpen : ClientOpen net.wires i c) :
    ∃ job ∈ (net.agents c.client).client.jobs, job.jobId = c.jobId := by
  have hAsks := hUnlocked.agreed.coherent.asks c.client
  rcases (hMoving.pursues c.client).reaches.used hOpen with ⟨e, he, hFd⟩ | ⟨job, hJob, g, hg, hFd⟩
  · obtain ⟨j, d, hFile, hConn', job, hJob, -, hId, -⟩ := hAsks.entry e he
    rw [hFd, hOpen] at hFile
    cases hFile
    rw [hConn] at hConn'
    cases hConn'
    exact ⟨job, hJob, hId⟩
  · obtain ⟨j, d, hFile, hConn', hId, -⟩ := hAsks.held job hJob g hg
    rw [hFd, hOpen] at hFile
    cases hFile
    rw [hConn] at hConn'
    cases hConn'
    exact ⟨job, hJob, hId.symm⟩

omit [DecidableEq A] in
/-- When nothing can be done, every job waits in a queue. -/
theorem waits_of_halted (hUnlocked : Unlocked capacity route used net) (hMoving : Moving net)
    (hHalted : Halted net) {a : A} {job : LocalJob} (hJob : job ∈ (net.agents a).client.jobs) :
    ∃ b r rq, Waits net (a, job.jobId) b r rq := by
  have hTidy := hUnlocked.agreed.tidy a
  have hCoherent := hUnlocked.agreed.coherent
  obtain ⟨e, he, hAddr⟩ := ((hMoving.pursues a).settled job hJob).1 (hHalted.waiting a job hJob)
  obtain ⟨i, c, hFile, hConn, job', hJob', hAddr', hId, -⟩ := (hCoherent.asks a).entry e he
  obtain rfl := hTidy.addrKeys job' hJob' job hJob (hAddr'.trans hAddr)
  obtain ⟨hClient, hFd⟩ := hCoherent.wired.at_client hFile hConn
  have hOpen : ClientOpen net.wires i c := by
    rw [ClientOpen, hClient, hFd]
    exact hFile
  -- the answer has not been given, or it would be on its way
  have hServed : c.served = none := by
    cases hSome : c.served with
    | none => rfl
    | some x =>
        have hLine := (hMoving.pursues a).reaches.answered e he hFile hConn (by rw [hSome]; rfl)
        exact absurd (hHalted.heard hConn hOpen) hLine
  obtain ⟨-, hWhole⟩ := open_of_unserved hUnlocked hConn hServed
  have hReceived : c.received.isSome = true := by
    rcases hMoving.flowing.sent hConn hServed with hArmed | hLine | hReceived
    · rw [hHalted.disarmed hConn hOpen] at hArmed
      cases hArmed
    · obtain ⟨⟨fd, addr⟩, hEnd⟩ := Option.ne_none_iff_exists'.mp (hHalted.accepted hConn)
      have hFile' := (hCoherent.flow hConn).accepted hOpen hWhole hEnd
      exact absurd (hHalted.served hConn hFile').1 hLine
    · exact hReceived
  obtain ⟨⟨r, rq⟩, hSome⟩ := Option.isSome_iff_exists.mp hReceived
  have hQueued := mem_queued.mp (hMoving.flowing.queued hConn hServed hSome)
  have hFile' := files_of_received hCoherent hUnlocked.acquiring.conns hConn hServed hSome
  obtain ⟨-, hSame, -⟩ := (hCoherent.flow hConn).received hSome
  exact ⟨c.server, r, rq, hQueued, ⟨i, c, hFile', hConn, hClient⟩, hSame.trans hId.symm⟩

omit [DecidableEq A] in
/-- A job that holds units is there. -/
theorem job_of_holds (hUnlocked : Unlocked capacity route used net) (hMoving : Moving net)
    (hHalted : Halted net) {y : A × Int} {b : A} {r : Resource} (hHolds : Holds net y b r) :
    ∃ job ∈ (net.agents y.1).client.jobs, job.jobId = y.2 := by
  obtain ⟨e, he, -, ⟨i, c, hFile, hConn, hClient⟩, hId⟩ := hHolds
  have hCoherent := hUnlocked.agreed.coherent
  obtain ⟨hServer, -⟩ := hCoherent.wired.at_server hFile hConn
  have hOpen := (hHalted.served hConn (hServer ▸ hFile)).2
  obtain ⟨job, hJob, hJobId⟩ := job_of_open hUnlocked hMoving hConn hOpen
  obtain ⟨j, d, hFile', hConn', -, hMatch⟩ := (hCoherent.serves b).table e he
  rw [hFile] at hFile'
  cases hFile'
  rw [hConn] at hConn'
  cases hConn'
  rcases hMatch with ⟨r', rq, addr, hSome, -, hSame, -⟩ | hZero
  · obtain ⟨-, hJobSame, -⟩ := (hCoherent.flow hConn).received ((hCoherent.flow hConn).served hSome)
    rw [hClient] at hJob
    refine ⟨job, hJob, ?_⟩
    rw [hJobId, ← hJobSame, ← hSame, hId]
  · exact absurd (congrArg Prod.snd hZero) ((hUnlocked.provides b).named e he)

omit [DecidableEq A] in
/-- A job that waits in a queue is there. -/
theorem job_of_waits (hUnlocked : Unlocked capacity route used net) (hMoving : Moving net)
    {y : A × Int} {b : A} {r : Resource} {rq : Request} (hWaits : Waits net y b r rq) :
    ∃ job ∈ (net.agents y.1).client.jobs, job.jobId = y.2 := by
  obtain ⟨hQueued, ⟨i, c, hFile, hConn, hClient⟩, hId⟩ := hWaits
  obtain ⟨j, d, hFile', hConn', hSome, -, hOpen, -⟩ := hUnlocked.queued hQueued
  rw [hFile] at hFile'
  cases hFile'
  rw [hConn] at hConn'
  cases hConn'
  obtain ⟨job, hJob, hJobId⟩ := job_of_open hUnlocked hMoving hConn hOpen
  obtain ⟨-, hSame, -⟩ := (hUnlocked.agreed.coherent.flow hConn).received hSome
  rw [hClient] at hJob
  exact ⟨job, hJob, by rw [hJobId, ← hSame, hId]⟩

omit [DecidableEq A] in
/-- When nothing can be done, there is no job: otherwise all jobs would wait for each
other. -/
theorem no_jobs_of_halted (hUnlocked : Unlocked capacity route used net) (hMoving : Moving net)
    (hHalted : Halted net) (a : A) : (net.agents a).client.jobs = [] := by
  rw [List.eq_nil_iff_forall_not_mem]
  intro job hJob
  refine hUnlocked.not_stuck
    {x | ∃ job ∈ (net.agents x.1).client.jobs, job.jobId = x.2}
    ⟨⟨(a, job.jobId), job, hJob, rfl⟩, ?_⟩
  rintro ⟨x, j⟩ ⟨job', hJob', rfl⟩
  obtain ⟨b, r, rq, hWaits⟩ := waits_of_halted hUnlocked hMoving hHalted hJob'
  refine ⟨b, r, rq, hWaits, ?_, ?_⟩
  · exact fun y hHolds => job_of_holds hUnlocked hMoving hHalted hHolds
  · rintro y ⟨front, back, -, rq', -, hWaits'⟩
    exact job_of_waits hUnlocked hMoving hWaits'

omit [DecidableEq A] in
/-- When nothing can be done, everything is done. -/
theorem finished_of_halted (hUnlocked : Unlocked capacity route used net) (hMoving : Moving net)
    (hHalted : Halted net) : Finished capacity net := by
  have hJobs := no_jobs_of_halted hUnlocked hMoving hHalted
  have hGone : ∀ {i : Nat} {c : Conn A}, net.wires.conns[i]? = some c →
      ¬ ClientOpen net.wires i c := by
    intro i c hConn hOpen
    obtain ⟨job, hJob, -⟩ := job_of_open hUnlocked hMoving hConn hOpen
    rw [hJobs] at hJob
    cases hJob
  have hWired := hUnlocked.agreed.coherent.wired
  have hClosed : ∀ a fd, net.wires.files a fd = none := by
    intro a fd
    cases hFile : net.wires.files a fd with
    | none => rfl
    | some x =>
        obtain ⟨i, side⟩ := x
        cases side with
        | client =>
            obtain ⟨c, hConn, rfl, rfl⟩ := hWired.client hFile
            exact absurd hFile (hGone hConn)
        | server =>
            obtain ⟨c, addr, hConn, rfl, -⟩ := hWired.server hFile
            exact absurd (hHalted.served hConn hFile).2 (hGone hConn)
  have hRecords : ∀ b, (net.agents b).server.tableNodejobs.toList = [] := by
    intro b
    rw [List.eq_nil_iff_forall_not_mem]
    intro e he
    obtain ⟨i, c, hFile, -⟩ := (hUnlocked.agreed.coherent.serves b).table e he
    rw [hClosed] at hFile
    cases hFile
  refine ⟨hJobs, ?_, hClosed, ?_, hRecords, ?_⟩
  · intro a
    rw [List.eq_nil_iff_forall_not_mem]
    intro e he
    obtain ⟨-, job, hJob, -⟩ := (hUnlocked.agreed.tidy a).entries e he
    have hNone : (clientsOf net a).jobs = [] := hJobs a
    rw [hNone] at hJob
    cases hJob
  · intro b r
    rw [List.eq_nil_iff_forall_not_mem]
    intro rq hQueued
    obtain ⟨i, c, hFile, -⟩ := hUnlocked.queued hQueued
    rw [hClosed] at hFile
    cases hFile
  · intro b r
    have hPool := (hUnlocked.provides b).pool r
    rw [Reservation.pool, hRecords] at hPool
    simpa [totalGranted] using hPool

/-! ## Jobs leave only when they are done -/

/-- The job is there, or its scheduler was told that it has got everything. -/
def Accounted (net : Net A) (x : A × Int) : Prop :=
  (∃ job ∈ (net.agents x.1).client.jobs, job.jobId = x.2) ∨
    ToldGranted (net.agents x.1).told x.2

theorem accounted_actClient (route : Text → Int → A) (net : Net A) {a : A}
    {r : ClientState × List Effect} {w : Wires A} {x : A × Int}
    (h : Accounted net x)
    (hJobs : ∀ job ∈ (net.agents a).client.jobs, x = (a, job.jobId) →
      (∃ job' ∈ r.1.jobs, job'.jobId = job.jobId) ∨ ToldGranted (net.agents a).told job.jobId) :
    Accounted ⟨(net.actClient route a r).agents, w⟩ x := by
  obtain ⟨b, j⟩ := x
  by_cases hAgent : b = a
  · subst hAgent
    simp only [Accounted, Net.actClient, if_true] at h ⊢
    rcases h with ⟨job, hJob, rfl⟩ | hTold
    · rcases hJobs job hJob rfl with hStill | hTold
      · exact .inl hStill
      · exact .inr (toldGranted_append.mpr (.inl hTold))
    · exact .inr (toldGranted_append.mpr (.inl hTold))
  · simpa [Accounted, Net.actClient, hAgent] using h

theorem accounted_actServer (route : Text → Int → A) (net : Net A) {b : A}
    {r : ServerState × List Effect} {w : Wires A} {x : A × Int}
    (h : Accounted net x) : Accounted ⟨(net.actServer route b r).agents, w⟩ x := by
  by_cases hAgent : x.1 = b
  · subst hAgent
    simpa [Accounted, Net.actServer] using h
  · simpa [Accounted, Net.actServer, hAgent] using h

theorem accounted_lineClient (hUnlocked : Unlocked capacity route used net) {now : Int} {d : Nat}
    {names : Int → Option Addr}
    (hEnabled : Enabled net (.line i .client now (.connected d) names)) {x : A × Int}
    (h : Accounted net x) :
    Accounted (netStep route net (.line i .client now (.connected d) names)) x := by
  obtain ⟨c, -, -, -, -, -, hKind⟩ := netStep_answer hUnlocked hEnabled
  rcases hKind with ⟨-, hStep⟩ | ⟨job, hJob, -, -, hStep⟩
  · rw [hStep]
    exact h
  · rw [hStep]
    have hTidy : Tidy (net.agents c.client).client := hUnlocked.agreed.tidy c.client
    have hChanged := granted_asked hTidy hJob c.clientFd now (.connected d)
    refine accounted_actClient route (readLine net i .client c.client) h
      fun job' hJob' _ => .inl ?_
    by_cases hSame : job'.addr = job.addr
    · obtain rfl := hTidy.addrKeys job' hJob' job hJob hSame
      exact ⟨_, (hChanged.jobs _).mpr (.inl rfl), by rw [asked_jobId, LocalJob.advance_jobId]⟩
    · exact ⟨job', (hChanged.jobs _).mpr (.inr ⟨hJob', hSame⟩), rfl⟩

/-- Whatever is done next, no job is lost. -/
theorem accounted_progress (hUnlocked : Unlocked capacity route used net) (hMoving : Moving net)
    {e : NetEvent A} (hProgress : Progress net e) {x : A × Int} (h : Accounted net x) :
    Accounted (netStep route net e) x := by
  obtain ⟨⟨hEnabled, hUndisturbed, hConnected⟩, hAdvances⟩ := hProgress
  cases e with
  | erlang a instruction timer nodes dial =>
      obtain ⟨jobId, job, hParse, hFind⟩ := releasesJob_iff.mp hAdvances
      obtain ⟨hJob, hId⟩ := ClientState.findJob_eq_some.mp hFind
      have hTold := hUndisturbed.2 job.jobId (by simp [releasing, causeOf, hParse, hId])
      obtain ⟨-, s', hChanged, hStep⟩ := netStep_finished route hUnlocked timer nodes dial hParse
        hFind (hUnlocked.done hJob hTold)
      rw [hStep]
      refine accounted_actClient route _ h fun job' hJob' _ => ?_
      by_cases hSame : job'.addr = job.addr
      · obtain rfl := (hUnlocked.agreed.tidy a).addrKeys job' hJob' job hJob hSame
        exact .inr hTold
      · exact .inl ⟨job', (hChanged.jobs _).mpr (.inr ⟨hJob', hSame⟩), rfl⟩
  | sweep a now => exact hAdvances.elim
  | accept i fd addr => exact h
  | writable i =>
      obtain ⟨c, line, -, -, -, -, hStep⟩ := netStep_writable hUnlocked hMoving hEnabled
      rw [hStep]
      exact h
  | line i side now dial names =>
      cases side with
      | client =>
          obtain ⟨d, rfl⟩ := connects_iff.mp hConnected
          exact accounted_lineClient hUnlocked hEnabled h
      | server =>
          obtain ⟨c, fd, addr, text, hConn, hFile, hEnd, hLine, -, hKind⟩ :=
            lineServer_cases hUnlocked hEnabled
          rcases hKind with ⟨hParse, -⟩ | ⟨hParse, -⟩
          · rw [netStep_reserve hConn hEnd hLine hParse]
            exact accounted_actServer route (readLine net i .server c.server) h
          · rw [netStep_release hConn hEnd hLine hParse]
            exact accounted_actServer route (readLine net i .server c.server) h
  | disconnect i side names =>
      cases side with
      | client => exact absurd hEnabled hUnlocked.not_disconnect_client
      | server =>
          obtain ⟨c, hConn, ⟨fd, hFd, hFile⟩, -⟩ := hEnabled
          rw [Option.mem_def] at hConn
          have hFile : net.wires.files c.server fd = some (i, .server) := hFile
          obtain ⟨-, addr, hEnd⟩ := hUnlocked.agreed.coherent.wired.at_server hFile hConn
          rw [netStep_disconnect_server hConn hEnd (hUnlocked.agreed.owner_server hFile)]
          exact accounted_actServer route _ h
  | fail i keepServer keepClient => exact hAdvances.elim

/-! ## Completion -/

omit [DecidableEq A] in
/-- A step that brings a job further requests no new one. -/
theorem requested_of_advances {e : NetEvent A} (h : Advances net e) : requested e = none := by
  cases e with
  | erlang a instruction timer nodes dial =>
      obtain ⟨jobId, job, hParse, -⟩ := releasesJob_iff.mp h
      exact requested_eq_none fun token tokens hRequest => by simp [hParse] at hRequest
  | _ => rfl

omit [DecidableEq A] in
theorem fromScheduler_of_advances {e : NetEvent A} (h : Advances net e) :
    FromScheduler capacity route e := by
  cases e with
  | erlang a instruction timer nodes dial =>
      obtain ⟨jobId, job, hParse, -⟩ := releasesJob_iff.mp h
      exact fun token tokens hRequest => by simp [hParse] at hRequest
  | _ => trivial

/-- The invariants go on to hold, and work is spent. -/
theorem progress_step (hUnlocked : Unlocked capacity route used net) (hMoving : Moving net)
    {e : NetEvent A} (h : Progress net e) :
    (Unlocked capacity route used (netStep route net e) ∧ Moving (netStep route net e)) ∧
      work used (netStep route net e) < work used net := by
  have hNone := requested_of_advances h.2
  have hFresh : ∀ x ∈ requested e, x ∉ used := by simp [hNone]
  have hNext := hUnlocked.step h.1.1 h.1.2.1 (fromScheduler_of_advances h.2) hFresh
  rw [hNone, Option.toList_none, List.append_nil] at hNext
  exact ⟨⟨hNext, hMoving.step hUnlocked h.1.1 h.1.2.1 h.1.2.2 (fromScheduler_of_advances h.2)
    hFresh⟩, work_progress hUnlocked hMoving h⟩

/-- **Every job completes.**  After a run in which nothing is disturbed and every dial
is answered, whatever the agents and the network then do for the jobs there are, they
do at most `work` steps, and as long as they have not finished, some step can be
taken.  When they have finished, no job, request, record or descriptor is left,
every provider has its capacity back, and the scheduler of every job was told that
the job had got everything. -/
theorem every_job_completes {A : Type} [DecidableEq A] (capacity : A → Resource → Int)
    (route : Text → Int → A) {es fs : List (NetEvent A)}
    (hMeets : Meets (netStep route) Smooth (Net.init capacity) es)
    (hScheduler : ∀ e ∈ es, FromScheduler capacity route e)
    (hUnique : (es.filterMap requested).Nodup)
    (hProgress : Meets (netStep route) Progress (run (netStep route) (Net.init capacity) es) fs) :
    fs.length ≤ work (es.filterMap requested) (run (netStep route) (Net.init capacity) es) ∧
      ((∃ e, Progress (run (netStep route) (Net.init capacity) (es ++ fs)) e) ∨
        Finished capacity (run (netStep route) (Net.init capacity) (es ++ fs)) ∧
        ∀ a, ∀ job ∈ ((run (netStep route) (Net.init capacity) es).agents a).client.jobs,
          ToldGranted ((run (netStep route) (Net.init capacity) (es ++ fs)).agents a).told
            job.jobId) := by
  have hInit := moving_run hMeets hScheduler hUnique
  rw [run_append]
  generalize run (netStep route) (Net.init capacity) es = net at hInit hProgress ⊢
  have hLength := length_add_le_potential
    (fun net => Unlocked capacity route (es.filterMap requested) net ∧ Moving net)
    (work (es.filterMap requested)) (fun net e hInv h => progress_step hInv.1 hInv.2 h) hInit
    hProgress
  obtain ⟨hUnlocked, hMoving⟩ := run_invariant
    (fun net => Unlocked capacity route (es.filterMap requested) net ∧ Moving net)
    (fun net e hInv h => (progress_step hInv.1 hInv.2 h).1) hInit hProgress
  refine ⟨by omega, ?_⟩
  by_cases hMore : ∃ e, Progress (run (netStep route) net fs) e
  · exact .inl hMore
  · right
    have hHalted := halted_of_no_progress hUnlocked hMoving fun e h => hMore ⟨e, h⟩
    have hFinished := finished_of_halted hUnlocked hMoving hHalted
    refine ⟨hFinished, fun a job hJob => ?_⟩
    have hAccounted := (run_invariant
      (fun net' => (Unlocked capacity route (es.filterMap requested) net' ∧ Moving net') ∧
        Accounted net' (a, job.jobId))
      (fun net' e hInv h => ⟨(progress_step hInv.1.1 hInv.1.2 h).1,
        accounted_progress hInv.1.1 hInv.1.2 h hInv.2⟩)
      ⟨hInit, .inl ⟨job, hJob, rfl⟩⟩ hProgress).2
    rcases hAccounted with ⟨job', hJob', -⟩ | hTold
    · rw [hFinished.jobs] at hJob'
      cases hJob'
    · exact hTold

/-- The requester's scheduler has a job released. -/
def releaseJob (jobId : Int) : NetEvent (Fin 2) :=
  .erlang requester (finishedLine jobId) 0 (tablahashCreate _) (.connected 9)

/-- RELEASE is read on connection `i`, and its end is seen. -/
def closeOn (i : Nat) : List (NetEvent (Fin 2)) :=
  [.line i .server 0 .noSocket peerOf, .disconnect i .server peerOf]

/-- Job 1001 gets its memory and is released, which leaves the cpus to job 1002. -/
def finishingRun : List (NetEvent (Fin 2)) :=
  reserveOn 1 11 ++ .line 1 .client 0 (.connected 8) peerOf :: releaseJob 1001 ::
    closeOn 0 ++ closeOn 1 ++ .line 2 .client 0 (.connected 8) peerOf ::
    reserveOn 3 13 ++ .line 3 .client 0 (.connected 9) peerOf :: releaseJob 1002 ::
    closeOn 2 ++ closeOn 3

theorem every_job_completes_finishingRun :
    finishingRun.length ≤ work (contendedRun.filterMap requested)
        (run (netStep toZero) (Net.init fours) contendedRun) ∧
      ((∃ e, Progress (run (netStep toZero) (Net.init fours) (contendedRun ++ finishingRun)) e) ∨
        Finished fours (run (netStep toZero) (Net.init fours) (contendedRun ++ finishingRun)) ∧
        ∀ a, ∀ job ∈ ((run (netStep toZero) (Net.init fours) contendedRun).agents a).client.jobs,
          ToldGranted ((run (netStep toZero) (Net.init fours)
            (contendedRun ++ finishingRun)).agents a).told job.jobId) := by
  have hMeets : Meets (netStep toZero) Smooth (Net.init fours) contendedRun := by
    decide +kernel
  have hUnique : (contendedRun.filterMap requested).Nodup := by
    decide +kernel
  have hProgress : Meets (netStep toZero) Progress
      (run (netStep toZero) (Net.init fours) contendedRun) finishingRun := by
    decide +kernel
  have hRequest : ∀ {jobId : Int} (fd : Nat), IsInt jobId →
      FromScheduler fours toZero (requestAll jobId fd) := by
    intro jobId fd hInt token tokens _
    exact ⟨jobId, allFour, hInt, rfl, by decide⟩
  have hScheduler : ∀ e ∈ contendedRun, FromScheduler fours toZero e := by
    intro e he
    simp only [contendedRun, reserveOn, List.cons_append, List.nil_append, List.mem_cons,
      List.not_mem_nil, or_false] at he
    rcases he with rfl | rfl | rfl | rfl | rfl | rfl | rfl | rfl | rfl
    · exact hRequest 5 (by decide)
    · trivial
    · trivial
    · trivial
    · trivial
    · exact hRequest 7 (by decide)
    · trivial
    · trivial
    · trivial
  exact every_job_completes fours toZero hMeets hScheduler hUnique hProgress

end ResourceAgent.Ports.Completion
