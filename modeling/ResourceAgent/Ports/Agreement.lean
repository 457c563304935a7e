import ResourceAgent.Ports.NetClient
import ResourceAgent.Ports.NetServer

/-!
# Requester and provider agree on every grant

In a run of the whole network, when a client moves a request of a job into
`granted_reqs` because GRANTED arrived on a connection, the provider's
`table_nodejobs` holds exactly that amount of that type for the job, and the
record was made for the RESERVE read from the same connection
(`grant_agreement`).  A type that names no resource is taken for the gpu, and
then it is not a reservation of that type.

This needs the steps of the run to be `Orderly`.  `stale_request_is_granted`
shows why: `release_client_by_fd` leaves a queued request behind when its
connection ends, and the answer then goes to whatever connection has that
descriptor number at the time.
-/

namespace ResourceAgent.Ports.Agreement

open ResourceAgent.Ports.HashTable
open ResourceAgent.Ports.Records
open ResourceAgent.Ports.Wire
open ResourceAgent.Ports.Client
open ResourceAgent.Ports.Reservation
open ResourceAgent.Ports.Network
open ResourceAgent.Ports.NetInvariant
open ResourceAgent.Verified.CText
open ResourceAgent.Verified.Runs

variable {A : Type} [DecidableEq A] {route : Text → Int → A} {net : Net A}

/-! ## Steps, case by case -/

section

variable {a b : A} {i : Nat} {c : Conn A} {fd : Int} {now : Int} {dial : Dial}
  {names : Int → Option Addr} {text : Text} {rest : List Text}

/-- A client-side handler that does nothing. -/
theorem actClient_idle {s : ClientState} (h : s = (net.agents a).client) :
    net.actClient route a (s, []) = net := by
  subst h
  have hAgents : (net.actClient route a ((net.agents a).client, [])).agents = net.agents := by
    funext x
    by_cases hSame : x = a
    · subst hSame
      simp [Net.actClient, toldBy]
    · simp [Net.actClient, hSame]
  calc net.actClient route a ((net.agents a).client, [])
      = ⟨(net.actClient route a ((net.agents a).client, [])).agents, net.wires⟩ := rfl
    _ = net := by rw [hAgents]

/-- A server-side handler that does nothing. -/
theorem actServer_idle {s : ServerState} (h : s = (net.agents a).server) :
    net.actServer route a (s, []) = net := by
  subst h
  have hAgents : (net.actServer route a ((net.agents a).server, [])).agents = net.agents := by
    funext x
    by_cases hSame : x = a
    · subst hSame
      simp [Net.actServer]
    · simp [Net.actServer, hSame]
  calc net.actServer route a ((net.agents a).server, [])
      = ⟨(net.actServer route a ((net.agents a).server, [])).agents, net.wires⟩ := rfl
    _ = net := by rw [hAgents]

theorem actServer_client (r : ServerState × List Effect) (x : A) :
    ((net.actServer route a r).agents x).client = (net.agents x).client := by
  by_cases hSame : x = a
  · subst hSame
    simp [Net.actServer]
  · simp [Net.actServer, hSame]

/-- The state after one end has taken its next line. -/
def readLine (net : Net A) (i : Nat) (side : Side) (a : A) : Net A :=
  { net with wires := net.wires.modify i (Conn.read side (net.agents a).server) }

omit [DecidableEq A] in
theorem read_same (side : Side) (s : ServerState) (c : Conn A) : Same c (c.read side s) := by
  cases side <;> exact ⟨⟨rfl, rfl, rfl, rfl, rfl, rfl⟩, rfl, id⟩

theorem netStep_reserve {jobId amount : Int} {resource : Text} {addr : Addr}
    (hConn : net.wires.conns[i]? = some c) (hEnd : c.serverEnd = some (fd, addr))
    (hLine : c.toServer = text :: rest)
    (hParse : parseRemote text = .reserve jobId resource amount) :
    netStep route net (.line i .server now dial names) =
      (readLine net i .server c.server).actServer route c.server
        (enqueueJobs (asPeers names) (net.agents c.server).server resource jobId amount fd) := by
  have hFd : c.fd .server = some fd := by simp [Conn.fd, hEnd]
  have hInbox : c.inbox .server = text :: rest := hLine
  simp only [netStep, hConn, hFd, hInbox, serverMessage, hParse, clientStep, clientToMyserver]
  refine actClient_idle ?_
  rw [actServer_client]

theorem netStep_release {addr : Addr} (hConn : net.wires.conns[i]? = some c)
    (hEnd : c.serverEnd = some (fd, addr)) (hLine : c.toServer = text :: rest)
    (hParse : parseRemote text = .release) :
    netStep route net (.line i .server now dial names) =
      (readLine net i .server c.server).actServer route c.server
        (releaseClientByFd (asPeers names) (net.agents c.server).server fd) := by
  have hFd : c.fd .server = some fd := by simp [Conn.fd, hEnd]
  have hInbox : c.inbox .server = text :: rest := hLine
  simp only [netStep, hConn, hFd, hInbox, serverMessage, hParse, clientStep, clientToMyserver]
  refine actClient_idle ?_
  rw [actServer_client]

theorem netStep_granted {jobId : Int} (hConn : net.wires.conns[i]? = some c)
    (hLine : c.toClient = text :: rest) (hParse : parseRemote text = .granted jobId) :
    netStep route net (.line i .client now dial names) =
      (readLine net i .client c.client).actClient route c.client
        (clientToMyserver now dial (net.agents c.client).client c.clientFd (.granted jobId)) := by
  have hFd : c.fd .client = some c.clientFd := rfl
  have hInbox : c.inbox .client = text :: rest := hLine
  simp only [netStep, hConn, hFd, hInbox, serverMessage, hParse, clientStep]
  exact congrArg (fun n => Net.actClient route n c.client _) (actServer_idle rfl)

/-- The connection ends at its server end, where no job waits. -/
theorem netStep_disconnect_server {addr : Addr} (hConn : net.wires.conns[i]? = some c)
    (hEnd : c.serverEnd = some (fd, addr)) (hOwner : (net.agents c.server).client.owner fd = none) :
    netStep route net (.disconnect i .server names) =
      ⟨(net.actServer route c.server
          (releaseClientByFd (asPeers names) (net.agents c.server).server fd)).agents,
        (net.wires.performAll route c.server
          (releaseClientByFd (asPeers names) (net.agents c.server).server fd).2).setFile
            c.server fd none⟩ := by
  have hFd : c.fd .server = some fd := by simp [Conn.fd, hEnd]
  have hIdle : (net.actServer route c.server
      (releaseClientByFd (asPeers names) (net.agents c.server).server fd)).actClient route c.server
        ((net.agents c.server).client, []) = net.actServer route c.server
          (releaseClientByFd (asPeers names) (net.agents c.server).server fd) :=
    actClient_idle (by rw [actServer_client])
  have hAgent : c.agent .server = c.server := rfl
  simp only [netStep, hConn, hFd, hAgent, clientStep, handleOutboundDisconnect, hOwner, hIdle]
  rfl

/-- The connection ends at its client end, where nothing is reserved. -/
theorem netStep_disconnect_client (hConn : net.wires.conns[i]? = some c)
    (hNone : reservedOn (net.agents c.client).server.tableNodejobs c.clientFd = []) :
    netStep route net (.disconnect i .client names) =
      ⟨(net.actClient route c.client
          (handleOutboundDisconnect (net.agents c.client).client c.clientFd)).agents,
        (net.wires.performAll route c.client
          (handleOutboundDisconnect (net.agents c.client).client c.clientFd).2).setFile
            c.client c.clientFd none⟩ := by
  have hFd : c.fd .client = some c.clientFd := rfl
  have hRelease : releaseClientByFd (asPeers names) (net.agents c.client).server c.clientFd =
      ((net.agents c.client).server, []) := by
    rw [releaseClientByFd, if_pos hNone]
  have hIdle : net.actServer route c.client ((net.agents c.client).server, []) = net :=
    actServer_idle rfl
  have hAgent : c.agent .client = c.client := rfl
  simp only [netStep, hConn, hFd, hAgent, hRelease, hIdle, clientStep]
  rfl

end

/-! ## The invariant along a run -/

/-- The client side of every agent. -/
def clientsOf (net : Net A) (a : A) : ClientState := (net.agents a).client

/-- The waiting requests and the records of every agent. -/
def serversOf (net : Net A) (b : A) : List (Resource × Request) × Table jobCallbacks :=
  (queued (net.agents b).server, (net.agents b).server.tableNodejobs)

structure Agreed (net : Net A) : Prop where
  tidy : ∀ a, Tidy (clientsOf net a)
  coherent : Coherent net.wires (clientsOf net) (serversOf net)

omit [DecidableEq A] in
theorem agreed_init (capacity : A → Resource → Int) : Agreed (Net.init capacity) where
  tidy _ := tidy_init
  coherent := by
    refine ⟨⟨?_, ?_, ?_, ?_⟩, ?_, ?_, ?_⟩
    · intro a fd i hFile
      cases hFile
    · intro b fd i hFile
      cases hFile
    · intro i c fd addr hConn
      simp [Net.init] at hConn
    · intro b fd fd' i j c d addr hFile
      cases hFile
    · intro i c hConn
      simp [Net.init] at hConn
    · intro a
      constructor <;> simp [clientsOf, Net.init, ClientState.init, ClientState.entries,
        ClientState.jobs]
    · intro b
      refine ⟨?_, ?_, ?_, ?_⟩
      · simp [serversOf, queued, Net.init, ServerState.init, makeQueue]
      · intro r rq hIn
        simp [serversOf, queued, Net.init, ServerState.init, makeQueue] at hIn
      · intro e he
        simp [serversOf, Net.init, ServerState.init] at he
      · intro fd i c hFile
        cases hFile

section

variable {a : A}

theorem clientsOf_actClient (r : ClientState × List Effect) :
    clientsOf (net.actClient route a r) = fun x => if x = a then r.1 else clientsOf net x := by
  funext x
  by_cases hSame : x = a <;> simp [clientsOf, Net.actClient, hSame]

theorem serversOf_actClient (r : ClientState × List Effect) :
    serversOf (net.actClient route a r) = serversOf net := by
  funext x
  by_cases hSame : x = a <;> simp [serversOf, Net.actClient, hSame]

theorem clientsOf_actServer (r : ServerState × List Effect) :
    clientsOf (net.actServer route a r) = clientsOf net := by
  funext x
  by_cases hSame : x = a <;> simp [clientsOf, Net.actServer, hSame]

theorem serversOf_actServer (r : ServerState × List Effect) :
    serversOf (net.actServer route a r) =
      fun x => if x = a then (queued r.1, r.1.tableNodejobs) else serversOf net x := by
  funext x
  by_cases hSame : x = a <;> simp [serversOf, Net.actServer, hSame]

/-- A handler of one client has returned, the wires may have changed after it. -/
theorem agreed_client (route : Text → Int → A) (hTidy : ∀ x, Tidy (clientsOf net x))
    {r : ClientState × List Effect}
    (hNew : Tidy r.1) {w : Wires A}
    (h : Coherent w (fun x => if x = a then r.1 else clientsOf net x) (serversOf net)) :
    Agreed ⟨(net.actClient route a r).agents, w⟩ where
  tidy x := by
    show Tidy (clientsOf (net.actClient route a r) x)
    rw [clientsOf_actClient]
    by_cases hSame : x = a
    · simpa [hSame] using hNew
    · simpa [hSame] using hTidy x
  coherent := by
    show Coherent w (clientsOf (net.actClient route a r)) (serversOf (net.actClient route a r))
    rw [clientsOf_actClient, serversOf_actClient]
    exact h

theorem agreed_server (route : Text → Int → A) (hTidy : ∀ x, Tidy (clientsOf net x))
    {r : ServerState × List Effect}
    {w : Wires A} (h : Coherent w (clientsOf net)
      (fun x => if x = a then (queued r.1, r.1.tableNodejobs) else serversOf net x)) :
    Agreed ⟨(net.actServer route a r).agents, w⟩ where
  tidy x := by
    show Tidy (clientsOf (net.actServer route a r) x)
    rw [clientsOf_actServer]
    exact hTidy x
  coherent := by
    show Coherent w (clientsOf (net.actServer route a r)) (serversOf (net.actServer route a r))
    rw [clientsOf_actServer, serversOf_actServer]
    exact h

end

/-- What a run must not do: take up a job id that is in use, end a connection
while a request read from it is queued or a job holds it, or lose a connection
with an answer on its way to a client that still has it. -/
def Orderly (net : Net A) : NetEvent A → Prop
  | .erlang a instruction timer nodes dial =>
      FreshRequest (net.agents a).client (.erlang instruction timer nodes dial)
  | .disconnect i .server _ =>
      ∀ c ∈ net.wires.conns[i]?, ∀ x ∈ c.serverEnd, ∀ r,
        ∀ rq ∈ ((net.agents c.server).server.queue r).requests, rq.originSocket ≠ x.1
  | .disconnect i .client _ =>
      ∀ c ∈ net.wires.conns[i]?, ∀ job ∈ (net.agents c.client).client.jobs,
        ∀ g ∈ job.grantedReqs, g.providerFd ≠ c.clientFd
  | .fail i _ keepClient =>
      ∀ c ∈ net.wires.conns[i]?, net.wires.IsOpen i c .client → c.toClient.take keepClient = []
  | _ => True

instance (net : Net A) : ∀ e, Decidable (Orderly net e)
  | .erlang a instruction timer nodes dial =>
      inferInstanceAs (Decidable (FreshRequest (net.agents a).client
        (.erlang instruction timer nodes dial)))
  | .sweep _ _ => inferInstanceAs (Decidable True)
  | .accept _ _ _ => inferInstanceAs (Decidable True)
  | .writable _ => inferInstanceAs (Decidable True)
  | .line _ _ _ _ _ => inferInstanceAs (Decidable True)
  | .disconnect i .server _ =>
      inferInstanceAs (Decidable (∀ c ∈ net.wires.conns[i]?, ∀ x ∈ c.serverEnd, ∀ r,
        ∀ rq ∈ ((net.agents c.server).server.queue r).requests, rq.originSocket ≠ x.1))
  | .disconnect i .client _ =>
      inferInstanceAs (Decidable (∀ c ∈ net.wires.conns[i]?,
        ∀ job ∈ (net.agents c.client).client.jobs,
        ∀ g ∈ job.grantedReqs, g.providerFd ≠ c.clientFd))
  | .fail i _ keepClient =>
      inferInstanceAs (Decidable (∀ c ∈ net.wires.conns[i]?, net.wires.IsOpen i c .client →
        c.toClient.take keepClient = []))

section

variable {i : Nat} {c : Conn A}

theorem Agreed.erlang (h : Agreed net) {a : A} {instruction : Text} {timer : Int}
    {nodes : Table nodeCallbacks} {dial : Dial} (hFree : net.wires.Free a dial)
    (hFresh : FreshRequest (net.agents a).client (.erlang instruction timer nodes dial)) :
    Agreed (netStep route net (.erlang a instruction timer nodes dial)) :=
  agreed_client route h.tidy ((h.tidy a).step hFresh)
    (h.coherent.erlang route (h.tidy a) hFresh hFree)

theorem Agreed.sweep (h : Agreed net) (a : A) (now : Int) :
    Agreed (netStep route net (.sweep a now)) := by
  have hFresh : FreshRequest (clientsOf net a) (.sweep now) := by
    intro job _ hSame
    cases hSame
  exact agreed_client route h.tidy ((h.tidy a).step hFresh) (h.coherent.timeOut route _ (h.tidy a))

theorem Agreed.accept (h : Agreed net) {fd : Nat} {addr : Addr}
    (hEnabled : Enabled net (.accept i fd addr)) :
    Agreed (netStep route net (.accept i fd addr)) := by
  obtain ⟨c, hConn, hEnd, hFree, hPort, hUnused⟩ := hEnabled
  exact ⟨h.tidy, h.coherent.accept hConn hEnd hFree hPort hUnused⟩

theorem Agreed.writable (h : Agreed net) (hEnabled : Enabled net (.writable i)) :
    Agreed (netStep route net (.writable i)) := by
  obtain ⟨c, hConn, hArmed, fd, hFd, hFile⟩ := hEnabled
  cases hFd
  have hFresh : FreshRequest (clientsOf net c.client) (.sendRequest c.clientFd) := by
    intro job _ hSame
    cases hSame
  rw [Option.mem_def] at hConn
  simp only [netStep, hConn]
  exact agreed_client route h.tidy ((h.tidy c.client).step hFresh)
    (h.coherent.writable route (h.tidy c.client) hFile hConn hArmed)

theorem Agreed.fail (h : Agreed net) {keepServer keepClient : Nat}
    (hOrderly : Orderly net (.fail i keepServer keepClient)) :
    Agreed (netStep route net (.fail i keepServer keepClient)) := by
  refine ⟨h.tidy, h.coherent.modify ?_ ?_⟩
  · intro c _
    exact ⟨⟨rfl, rfl, rfl, rfl, rfl, rfl⟩, rfl, rfl, fun _ => rfl⟩
  · intro c hConn
    have hFlow := h.coherent.flow hConn
    have hTake : ∀ {line : Text} {lines : List Text} (keep : Nat), lines = [line] →
        (lines.take keep = [] ∨ lines.take keep = [line]) := by
      intro line lines keep hLine
      rw [hLine]
      cases keep with
      | zero => exact .inl rfl
      | succ n => exact .inr (by simp)
    refine ⟨hFlow.job, hFlow.req, ?_, ?_, hFlow.received, hFlow.served, ?_,
      fun _ hBroken => by cases hBroken⟩
    · rcases hFlow.toServer with hNil | ⟨hReserve, hRest⟩ | ⟨⟨line, hLine, hRelease⟩, hClosed⟩
      · exact .inl (by simp [Conn.fail, hNil])
      · rcases hTake keepServer hReserve with hNone | hSame
        · exact .inl hNone
        · exact .inr (.inl ⟨hSame, hRest⟩)
      · rcases hTake keepServer hLine with hNone | hSame
        · exact .inl hNone
        · exact .inr (.inr ⟨⟨line, hSame, hRelease⟩, hClosed⟩)
    · intro hArmed
      obtain ⟨hNone, hNil⟩ := hFlow.armed hArmed
      exact ⟨hNone, by simp [Conn.fail, hNil]⟩
    · rcases hFlow.toClient with hNil | ⟨hGranted, hServed, -⟩
      · exact .inl (by simp [Conn.fail, hNil])
      · by_cases hOpen : ClientOpen net.wires i c
        · exact .inl (hOrderly c hConn ⟨_, rfl, hOpen⟩)
        · rcases hTake keepClient hGranted with hNone | hSame
          · exact .inl hNone
          · exact .inr ⟨hSame, hServed, fun hStill => absurd hStill hOpen⟩

/-- A line is read at the server end: it is the RESERVE of the connection, or a
RELEASE whose sender is gone. -/
theorem Agreed.lineServer (h : Agreed net) {now : Int} {dial : Dial} {names : Int → Option Addr}
    (hEnabled : Enabled net (.line i .server now dial names)) :
    Agreed (netStep route net (.line i .server now dial names)) := by
  obtain ⟨c, hConn, ⟨fd, hFd, hFile⟩, hInbox, -, hNamed⟩ := hEnabled
  rw [Option.mem_def] at hConn
  have hFile : net.wires.files c.server fd = some (i, .server) := hFile
  obtain ⟨-, addr, hEnd⟩ := h.coherent.wired.at_server hFile hConn
  obtain ⟨text, rest, hLine⟩ : ∃ text rest, c.toServer = text :: rest :=
    List.exists_cons_of_ne_nil hInbox
  have hFlow := h.coherent.flow hConn
  have hReadNamed : (readLine net i .server c.server).wires.Named c.server names :=
    (Steady.modify (read_same .server _)).named hNamed
  rcases hFlow.toServer with hNil | ⟨hReserve, -, -⟩ | ⟨⟨line, hSame, hParse⟩, hClosed⟩
  · rw [hNil] at hLine
    cases hLine
  · have hParse : parseRemote text = .reserve c.jobId c.req.type c.req.amount := by
      rw [hReserve, List.cons.injEq] at hLine
      rw [← hLine.1]
      exact parseRemote_reserveLine hFlow.job hFlow.req.2 hFlow.req.1
    rw [netStep_reserve hConn hEnd hLine hParse]
    obtain ⟨⟨grants, hDrain⟩, -⟩ := enqueueJobs_drained (asPeers names)
      (net.agents c.server).server c.req.type c.jobId c.req.amount fd
    have hWaits := h.coherent.reserve (s := (net.agents c.server).server)
      hFile hConn hLine hParse rfl
    -- the queue holds the new request at its end, not in front
    have hPerm := (queued_enqueueOnly (net.agents c.server).server (Resource.ofName c.req.type)
      (makeRequest (net.agents c.server).server c.jobId fd c.req.amount)).symm
    have hQueued := hWaits.setServer (((by simpa using hWaits.serves c.server) :
      Serves _ c.server _ _).perm hPerm)
    have hDone : Coherent (Wires.performAll route c.server _ _) _ _ :=
      hQueued.overwriteServer.drained (if_pos rfl) hReadNamed hDrain
    exact agreed_server route h.tidy hDone.overwriteServer
  · have hText : text = line := by
      rw [hSame, List.cons.injEq] at hLine
      exact hLine.1.symm
    subst hText
    rw [netStep_release hConn hEnd hLine hParse]
    have hQuiet : ∀ d, net.wires.conns[i]? = some d →
        Quiet d (Conn.read .server (net.agents c.server).server d) := by
      intro d hConn'
      rw [hConn] at hConn'
      cases hConn'
      refine ⟨⟨rfl, rfl, rfl, rfl, rfl, rfl⟩, ?_, rfl, id⟩
      simp [Conn.read, Conn.reserveRead, hSame, hParse]
    have hRead := h.coherent.modify hQuiet (fun d hConn' => by
      rw [hConn] at hConn'
      cases hConn'
      have hReceived := (hQuiet c hConn).received
      refine ⟨hFlow.job, hFlow.req, .inl (by simp [Conn.read, hSame]), ?_, ?_, ?_, hFlow.toClient,
        hFlow.accepted⟩
      · intro hArmed
        rw [(hFlow.armed hArmed).2] at hSame
        cases hSame
      · intro r rq hSome
        exact hFlow.received (hReceived.symm.trans hSome)
      · intro x hSome
        exact hReceived.trans (hFlow.served hSome))
    refine agreed_server route h.tidy (hRead.releaseClient (c := Conn.read .server _ c) hFile
      (conns_modify_self hConn) ?_ rfl hReadNamed)
    exact fun hLive => hClosed hLive.1

omit [DecidableEq A] in
/-- A line on its way to the client is the answer to the request of the
connection. -/
theorem Flow.granted {w : Wires A} (h : Flow w i c) (hOpen : ClientOpen w i c) {text : Text}
    {rest : List Text} (hLine : c.toClient = text :: rest) :
    rest = [] ∧ parseRemote text = .granted c.jobId ∧ c.served.isSome = true ∧
      c.broken = false := by
  rcases h.toClient with hNil | ⟨hGranted, hServed, hBroken⟩
  · rw [hNil] at hLine
    cases hLine
  · rw [hGranted, List.cons.injEq] at hLine
    refine ⟨hLine.2.symm, ?_, hServed, hBroken hOpen⟩
    rw [← hLine.1]
    exact parseRemote_grantedLine h.job

/-- A line is read at the client end: it is the GRANTED of the connection. -/
theorem Agreed.lineClient (h : Agreed net) {now : Int} {dial : Dial} {names : Int → Option Addr}
    (hEnabled : Enabled net (.line i .client now dial names)) :
    Agreed (netStep route net (.line i .client now dial names)) := by
  obtain ⟨c, hConn, ⟨fd, hFd, hFile⟩, hInbox, hFree, -⟩ := hEnabled
  rw [Option.mem_def] at hConn
  cases hFd
  obtain ⟨text, rest, hLine⟩ : ∃ text rest, c.toClient = text :: rest :=
    List.exists_cons_of_ne_nil hInbox
  have hFlow := h.coherent.flow hConn
  obtain ⟨rfl, hParse, hServed, hWhole⟩ := Flow.granted hFlow hFile hLine
  rw [netStep_granted hConn hLine hParse]
  have hRead := h.coherent.modify (i := i) (f := Conn.read .client (net.agents c.client).server)
    (fun d _ => ⟨⟨rfl, rfl, rfl, rfl, rfl, rfl⟩, rfl, rfl, id⟩) (fun d hConn' => by
      rw [hConn] at hConn'
      cases hConn'
      exact ⟨hFlow.job, hFlow.req, hFlow.toServer, hFlow.armed, hFlow.received, hFlow.served,
        .inl (by simp [Conn.read, hLine]), hFlow.accepted⟩)
  have hTidy := h.tidy c.client
  have hNew : Tidy (clientToMyserver now dial (net.agents c.client).client c.clientFd
      (.granted c.jobId)).1 :=
        (clientToMyserver_move hTidy now dial _ _ : Move .other _ _ _).tidy hTidy
  refine agreed_client route h.tidy hNew ?_
  simp only [clientToMyserver]
  cases hOwner : (net.agents c.client).client.owner c.clientFd with
  | none => exact hRead.sameClient
  | some job =>
      obtain ⟨hEntry, hJob⟩ := (ClientState.owner_eq_some hTidy.addrKeys).mp hOwner
      simp only
      split
      · exact hRead.advanceJob route hTidy now hJob hEntry hFile (conns_modify_self hConn)
          hServed hFree
      · exact hRead.sameClient

omit [DecidableEq A] in
/-- No job waits on the server end of a connection. -/
theorem Agreed.owner_server (h : Agreed net) {b : A} {fd : Int}
    (hFile : net.wires.files b fd = some (i, .server)) :
    (net.agents b).client.owner fd = none := by
  cases hOwner : (net.agents b).client.owner fd with
  | none => rfl
  | some job =>
      obtain ⟨hEntry, -⟩ := (ClientState.owner_eq_some (h.tidy b).addrKeys).mp hOwner
      obtain ⟨j, d, hFile', -⟩ := (h.coherent.asks b).entry _ hEntry
      rw [hFile] at hFile'
      cases hFile'

/-- The server end of a connection is closed. -/
theorem Agreed.disconnectServer (h : Agreed net) {names : Int → Option Addr}
    (hEnabled : Enabled net (.disconnect i .server names))
    (hOrderly : Orderly net (.disconnect i .server names)) :
    Agreed (netStep route net (.disconnect i .server names)) := by
  obtain ⟨c, hConn, ⟨fd, hFd, hFile⟩, -, hOver, hNamed⟩ := hEnabled
  have hQueue := hOrderly c hConn
  rw [Option.mem_def] at hConn
  have hFile : net.wires.files c.server fd = some (i, .server) := hFile
  obtain ⟨-, addr, hEnd⟩ := h.coherent.wired.at_server hFile hConn
  have hDead : ¬ Live net.wires i c := by
    rintro ⟨hOpen, hWhole⟩
    rcases hOver with hBroken | ⟨fd', hFd', hClosed⟩
    · rw [hWhole] at hBroken
      cases hBroken
    · cases hFd'
      exact hClosed hOpen
  rw [netStep_disconnect_server hConn hEnd (h.owner_server hFile)]
  have hReleased : Coherent (net.wires.performAll route c.server _) _ _ :=
    h.coherent.releaseClient hFile hConn hDead rfl hNamed
  have hSteady : Steady net.wires (net.wires.performAll route c.server
      (releaseClientByFd (asPeers names) (net.agents c.server).server fd).2) :=
    steady_releaseClient _ _ _
  have hFile' := (congrFun (congrFun hSteady.files c.server) fd).trans hFile
  obtain ⟨c', -, hConn', -⟩ := hReleased.wired.server hFile'
  obtain ⟨d, hConn'', hSame⟩ := hSteady.conns hConn'
  obtain rfl : d = c := Option.some.inj (hConn''.symm.trans hConn)
  refine agreed_server route h.tidy (hReleased.closeServer hFile' hConn' ?_ ?_)
  · rintro ⟨hOpen, hWhole⟩
    refine hDead ⟨?_, hSame.broken ▸ hWhole⟩
    rw [ClientOpen, hSteady.files] at hOpen
    exact hSame.clientOpen.mp hOpen
  · have hNone : ∀ x ∈ queued (net.agents d.server).server, x.2.originSocket ≠ fd :=
      fun x hx => hQueue (fd, addr) hEnd x.1 x.2 (mem_queued.mp hx)
    simpa using not_refers_releaseClient hNone

/-- The client end of a connection is closed. -/
theorem Agreed.disconnectClient (h : Agreed net) {names : Int → Option Addr}
    (hEnabled : Enabled net (.disconnect i .client names))
    (hOrderly : Orderly net (.disconnect i .client names)) :
    Agreed (netStep route net (.disconnect i .client names)) := by
  obtain ⟨c, hConn, ⟨fd, hFd, hFile⟩, -⟩ := hEnabled
  have hHeld := hOrderly c hConn
  rw [Option.mem_def] at hConn
  cases hFd
  have hFile : net.wires.files c.client c.clientFd = some (i, .client) := hFile
  have hClient : ∀ j, net.wires.files c.client c.clientFd ≠ some (j, .server) := by
    intro j hServer
    rw [hFile] at hServer
    cases hServer
  -- nothing is reserved on the client end of a connection
  have hNone : reservedOn (net.agents c.client).server.tableNodejobs c.clientFd = [] := by
    rw [reservedOn, List.filter_eq_nil_iff]
    intro e he hSame
    obtain ⟨j, d, hFile', -⟩ := (h.coherent.serves c.client).table e he
    rw [of_decide_eq_true hSame] at hFile'
    exact hClient j hFile'
  rw [netStep_disconnect_client hConn hNone]
  have hTidy := h.tidy c.client
  have hNew : Tidy (handleOutboundDisconnect (net.agents c.client).client c.clientFd).1 :=
    (handleOutboundDisconnect_move hTidy _ : Move .other _ _ _).tidy hTidy
  refine agreed_client route h.tidy hNew ?_
  simp only [handleOutboundDisconnect]
  cases hOwner : (net.agents c.client).client.owner c.clientFd with
  | none =>
      refine (h.coherent.closeClient hClient ?_).sameClient
      rintro (⟨e, he, hSame⟩ | ⟨job, hJob, g, hg, hSame⟩)
      · obtain ⟨-, job, hJob, hAddr, -⟩ := hTidy.entries e he
        have hSome : (clientsOf net c.client).owner c.clientFd = some job :=
          (ClientState.owner_eq_some hTidy.addrKeys).mpr ⟨by rw [hAddr, ← hSame]; exact he, hJob⟩
        rw [clientsOf, hOwner] at hSome
        cases hSome
      · exact hHeld job hJob g hg hSame
  | some job =>
      obtain ⟨hEntry, hJob⟩ := (ClientState.owner_eq_some hTidy.addrKeys).mp hOwner
      have hChanged : Changed (net.agents c.client).client _ job.addr none [c.clientFd] [] :=
        reject_changed hTidy hJob
      have hEnd := h.coherent.rejectJob route hTidy hJob hEntry hChanged
      have hUnused := (h.coherent.asks c.client).not_uses_dropped hChanged hEntry rfl
      have hOut : net.wires.performAll route c.client
          ((releaseResources ((net.agents c.client).client.removeEntry c.clientFd) job).2 ++
            cToErlang .rejected (itoa job.jobId)) =
          net.wires.performAll route c.client (released job) := by
        rw [performAll_append, performAll_cToErlang]
        rfl
      rw [hOut]
      refine hEnd.closeClient ?_ (by simpa using hUnused)
      intro j hServer
      exact hClient j ((files_releaseAll _).mp hServer).1

theorem Agreed.step (h : Agreed net) {e : NetEvent A} (hEnabled : Enabled net e)
    (hOrderly : Orderly net e) : Agreed (netStep route net e) := by
  cases e with
  | erlang a instruction timer nodes dial => exact h.erlang hEnabled hOrderly
  | sweep a now => exact h.sweep a now
  | accept i fd addr => exact h.accept hEnabled
  | writable i => exact h.writable hEnabled
  | line i side now dial names =>
      cases side with
      | client => exact h.lineClient hEnabled
      | server => exact h.lineServer hEnabled
  | disconnect i side names =>
      cases side with
      | client => exact h.disconnectClient hEnabled hOrderly
      | server => exact h.disconnectServer hEnabled hOrderly
  | fail i keepServer keepClient => exact h.fail hOrderly

end

theorem agreed_run (capacity : A → Resource → Int) {es : List (NetEvent A)}
    (hMeets : Meets (netStep route) (fun net e => Enabled net e ∧ Orderly net e)
      (Net.init capacity) es) : Agreed (run (netStep route) (Net.init capacity) es) :=
  run_invariant Agreed (fun _ _ h hOk => h.step hOk.1 hOk.2) (agreed_init capacity) hMeets

/-! ## Grants -/

/-- Between `s` and `s'`, the request `req` of job `jobId` moved into
`granted_reqs`, with the connection `fd` kept. -/
def MovesRequest (s s' : ClientState) (fd jobId : Int) (req : PendingResource) : Prop :=
  ∃ job ∈ s.jobs, ∃ job' ∈ s'.jobs, job.jobId = jobId ∧ job'.jobId = jobId ∧
    job.nextReq.head? = some req ∧
    job'.grantedReqs = { req with providerFd := fd } :: job.grantedReqs

instance (s s' : ClientState) (fd jobId : Int) (req : PendingResource) :
    Decidable (MovesRequest s s' fd jobId req) :=
  inferInstanceAs (Decidable (∃ job ∈ s.jobs, ∃ job' ∈ s'.jobs, job.jobId = jobId ∧
    job'.jobId = jobId ∧ job.nextReq.head? = some req ∧
    job'.grantedReqs = { req with providerFd := fd } :: job.grantedReqs))

/-- The provider at the other end of connection `i` holds a reservation of the
request's amount of the resource it names for the job, made for the RESERVE that
was read from this connection. -/
def Reserved (net : Net A) (i : Nat) (jobId : Int) (req : PendingResource) : Prop :=
  ∃ c ∈ net.wires.conns[i]?, ∃ x ∈ c.received, c.served = some x ∧
    x.1.name = req.type ∧ x.2.jobId = jobId ∧ x.2.amountRequested = req.amount ∧
    ∃ y ∈ c.serverEnd, y.1 = x.2.originSocket ∧ net.wires.files c.server y.1 = some (i, .server) ∧
      ∃ e ∈ (net.agents c.server).server.tableNodejobs.toList,
        e.id = jobId ∧ e.originalSocket = y.1 ∧ (e.ip, e.port) = y.2 ∧ e.granted x.1 = req.amount

instance (net : Net A) (i : Nat) (jobId : Int) (req : PendingResource) :
    Decidable (Reserved net i jobId req) :=
  inferInstanceAs (Decidable (∃ c ∈ net.wires.conns[i]?, ∃ x ∈ c.received, c.served = some x ∧
    x.1.name = req.type ∧ x.2.jobId = jobId ∧ x.2.amountRequested = req.amount ∧
    ∃ y ∈ c.serverEnd, y.1 = x.2.originSocket ∧ net.wires.files c.server y.1 = some (i, .server) ∧
      ∃ e ∈ (net.agents c.server).server.tableNodejobs.toList,
        e.id = jobId ∧ e.originalSocket = y.1 ∧ (e.ip, e.port) = y.2 ∧
          e.granted x.1 = req.amount))

omit [DecidableEq A] in
/-- Handling GRANTED moves only the head request of the job the connection was
opened for. -/
theorem movesRequest_granted {w : Wires A} {a : A} {s : ClientState} (hTidy : Tidy s)
    (hAsks : Asks w a s) {fd : Int} {i : Nat} {c : Conn A}
    (hFile : w.files a fd = some (i, .client)) (hConn : w.conns[i]? = some c)
    {now : Int} {dial : Dial} {j jobId : Int} {req : PendingResource}
    (h : MovesRequest s (clientToMyserver now dial s fd (.granted j)).1 fd jobId req) :
    jobId = c.jobId ∧ req = c.req := by
  obtain ⟨job, hJob, job', hJob', hId, hId', hHead, hGranted⟩ := h
  have hStays : job' ∉ s.jobs := by
    intro hOld
    rw [ClientState.eq_of_jobId hOld hJob (hId'.trans hId.symm)] at hGranted
    exact List.cons_ne_self _ _ hGranted.symm
  simp only [clientToMyserver] at hJob'
  cases hOwner : s.owner fd with
  | none =>
      simp only [hOwner] at hJob'
      exact absurd hJob' hStays
  | some owner =>
      simp only [hOwner] at hJob'
      obtain ⟨hEntry, hOwned⟩ := (ClientState.owner_eq_some hTidy.addrKeys).mp hOwner
      split at hJob'
      · have hAdvance := advance_changed hTidy.addrKeys hOwned fd now
        have hAddr := LocalJob.advance_addr owner fd now
        have hKeys := hAdvance.addrKeys hTidy.addrKeys (by rintro x ⟨⟩; exact hAddr)
        have hInt : IsInt (LocalJob.advance owner fd now).jobId := by
          rw [LocalJob.advance_jobId]
          exact hTidy.ids owner hOwned
        obtain ⟨hAsk, -⟩ := askForNextResource_changed hKeys hAdvance.mem_self hInt dial
        have hChanged := hAdvance.then hAddr hAsk
        rcases (hChanged.jobs job').mp hJob' with hNew | ⟨hOld, -⟩
        · cases hNew
          rw [asked_jobId, LocalJob.advance_jobId] at hId'
          obtain rfl := ClientState.eq_of_jobId hJob hOwned (hId.trans hId'.symm)
          obtain ⟨i', c', hFile', hConn', x, hx, hxAddr, hxId, hxHead⟩ := hAsks.entry _ hEntry
          rw [hFile] at hFile'
          cases hFile'
          rw [hConn] at hConn'
          cases hConn'
          obtain rfl := hTidy.addrKeys x hx job hJob hxAddr
          refine ⟨hId.symm.trans hxId, ?_⟩
          rw [hHead] at hxHead
          exact Option.some.inj hxHead
        · exact absurd hOld hStays
      · exact absurd hJob' hStays

/-- **Grant agreement.**  In a run of any number of agents whose steps are all
orderly, whenever a client handles a line on a connection and thereby moves a
request of a job into `granted_reqs`, the provider has reserved exactly that, for
the RESERVE it read from the same connection, if and only if the type of the
request is the name of a resource. -/
theorem grant_agreement (route : Text → Int → A) (capacity : A → Resource → Int)
    {es : List (NetEvent A)} {i : Nat} {now : Int} {dial : Dial} {names : Int → Option Addr}
    (hMeets : Meets (netStep route) (fun net e => Enabled net e ∧ Orderly net e)
      (Net.init capacity) (es ++ [.line i .client now dial names]))
    {c : Conn A} (hConn : (run (netStep route) (Net.init capacity) es).wires.conns[i]? = some c)
    {jobId : Int} {req : PendingResource}
    (hMoves : MovesRequest
      ((run (netStep route) (Net.init capacity) es).agents c.client).client
      ((run (netStep route) (Net.init capacity)
        (es ++ [.line i .client now dial names])).agents c.client).client
      c.clientFd jobId req) :
    Reserved (run (netStep route) (Net.init capacity) es) i jobId req ↔
      ∃ r : Resource, r.name = req.type := by
  constructor
  · rintro ⟨-, -, x, -, -, hType, -⟩
    exact ⟨x.1, hType⟩
  rintro ⟨named, hNamed⟩
  rw [meets_append] at hMeets
  have h := agreed_run capacity hMeets.1
  rw [run_snoc] at hMoves
  obtain ⟨⟨hEnabled, -⟩, -⟩ := hMeets.2
  generalize run (netStep route) (Net.init capacity) es = net at *
  obtain ⟨c', hConn', ⟨fd, hFd, hFile⟩, hInbox, -⟩ := hEnabled
  obtain rfl : c' = c := Option.some.inj (Option.mem_def.mp hConn' |>.symm.trans hConn)
  cases hFd
  have hFile : net.wires.files c'.client c'.clientFd = some (i, .client) := hFile
  obtain ⟨text, rest, hLine⟩ : ∃ text rest, c'.toClient = text :: rest :=
    List.exists_cons_of_ne_nil hInbox
  have hFlow := h.coherent.flow hConn
  obtain ⟨-, hParse, hServed, hWhole⟩ := Flow.granted hFlow hFile hLine
  rw [netStep_granted hConn hLine hParse] at hMoves
  have hAfter : (((readLine net i .client c'.client).actClient route c'.client
      (clientToMyserver now dial (net.agents c'.client).client c'.clientFd
        (.granted c'.jobId))).agents c'.client).client =
      (clientToMyserver now dial (net.agents c'.client).client c'.clientFd
        (.granted c'.jobId)).1 := by
    simp [Net.actClient]
  rw [hAfter] at hMoves
  obtain ⟨rfl, rfl⟩ := movesRequest_granted (h.tidy c'.client) (h.coherent.asks c'.client) hFile
    hConn hMoves
  -- the record is the one of the request served on this connection
  obtain ⟨⟨r, rq⟩, hSome⟩ := Option.isSome_iff_exists.mp hServed
  have hReceived := hFlow.served hSome
  obtain ⟨hType, hJob, hAmount, addr, hEnd⟩ := hFlow.received hReceived
  have hOpen := hFlow.accepted hFile hWhole hEnd
  obtain ⟨e, he, r', rq', addr', hSome', hEnd', hId, hSocket, hAddr, hAmounts⟩ :=
    (h.coherent.serves c'.server).live hOpen hConn hServed ⟨hFile, hWhole⟩
  rw [hSome] at hSome'
  cases hSome'
  rw [hEnd] at hEnd'
  cases hEnd'
  have hName : r.name = c'.req.type := by
    rw [hType, ← hNamed, Resource.ofName_name]
  refine ⟨c', hConn, (r, rq), hReceived, hSome, hName, hJob, hAmount, (rq.originSocket, addr),
    hEnd, rfl, hOpen, e, he, hId.trans hJob, hSocket, hAddr, ?_⟩
  rw [hAmounts r, if_pos rfl, hAmount]

/-! ## Two agents -/

/-- Agent 0 provides four units of everything, agent 1 nothing. -/
def fours (a : Fin 2) (_ : Resource) : Int := if a = 0 then 4 else 0

/-- Every destination is agent 0. -/
def toZero (_ : Text) (_ : Int) : Fin 2 := 0

/-- The peer of the connection agent 0 has accepted as `fd`. -/
def peerOf (fd : Int) : Option Addr := some (1, 5000 + fd)

/-- The agent whose scheduler has jobs. -/
def requester : Fin 2 := 1

/-- Its scheduler sends a line; a connection the line causes gets `fd`. -/
def command (instruction : String) (timer : Int) (fd : Nat) : NetEvent (Fin 2) :=
  .erlang requester instruction.toList timer (tablahashCreate _) (.connected fd)

/-- Connection `i` is accepted as `fd`, and its RESERVE is sent and read. -/
def reserveOn (i fd : Nat) : List (NetEvent (Fin 2)) :=
  [.accept i fd (1, 5000 + fd), .writable i, .line i .server 0 .noSocket peerOf]

/-- The GRANTED of connection `i` is read. -/
def answerOn (i : Nat) : NetEvent (Fin 2) := .line i .client 0 .noSocket peerOf

/-- Job 1002 asks for four cpus. -/
def cpuRun : List (NetEvent (Fin 2)) :=
  command "JOB_REQUEST 1002 @10.0.0.1:cpu:4\n" 0 5 :: reserveOn 0 10

theorem grant_agreement_cpuRun :
    Reserved (run (netStep toZero) (Net.init fours) cpuRun) 0 1002
      ⟨"cpu".toList, 4, "10.0.0.1".toList, 4200, -1⟩ := by
  have hSome : ((run (netStep toZero) (Net.init fours) cpuRun).wires.conns[0]?).isSome = true := by
    decide +kernel
  have hMoves : ∀ c ∈ (run (netStep toZero) (Net.init fours) cpuRun).wires.conns[0]?, MovesRequest
      ((run (netStep toZero) (Net.init fours) cpuRun).agents c.client).client
      ((run (netStep toZero) (Net.init fours)
        (cpuRun ++ [.line 0 .client 0 .noSocket peerOf])).agents c.client).client
      c.clientFd 1002 ⟨"cpu".toList, 4, "10.0.0.1".toList, 4200, -1⟩ := by
    decide +kernel
  have hMeets : Meets (netStep toZero) (fun net e => Enabled net e ∧ Orderly net e)
      (Net.init fours) (cpuRun ++ [.line 0 .client 0 .noSocket peerOf]) := by
    decide +kernel
  obtain ⟨c, hConn⟩ := Option.isSome_iff_exists.mp hSome
  exact (grant_agreement toZero fours hMeets hConn (hMoves c hConn)).mpr ⟨.cpu, rfl⟩

/-- Job 1002 has got all cpus, job 1001 waits for them and times out.  Agent 0 sees
the end of its connection, but its request stays queued.  Then job 1001 is
relaunched for memory, on a connection with the same two descriptors, and before
its RESERVE is sent job 1002 is released. -/
def staleRun : List (NetEvent (Fin 2)) :=
  cpuRun ++ answerOn 0 :: command "JOB_REQUEST 1001 @10.0.0.1:cpu:4\n" 0 6 :: reserveOn 1 11 ++
    [.sweep 1 30, .disconnect 1 .server peerOf,
      command "JOB_REQUEST 1001 @10.0.0.1:mem:4\n" 31 6, .accept 2 11 (1, 5011),
      command "JOB_RELEASE 1002\n" 32 7, .line 0 .server 0 .noSocket peerOf]

/-- **A stale request is granted to another connection.**  Job 1001 takes the
answer for its memory, of which the provider has reserved nothing. -/
theorem stale_request_is_granted :
    Meets (netStep toZero) Enabled (Net.init fours) (staleRun ++ [answerOn 2]) ∧
      (∃ c ∈ (run (netStep toZero) (Net.init fours) staleRun).wires.conns[2]?, MovesRequest
        ((run (netStep toZero) (Net.init fours) staleRun).agents c.client).client
        ((run (netStep toZero) (Net.init fours) (staleRun ++ [answerOn 2])).agents c.client).client
        c.clientFd 1001 ⟨"mem".toList, 4, "10.0.0.1".toList, 4200, -1⟩) ∧
      ¬ Reserved (run (netStep toZero) (Net.init fours) staleRun) 2 1001
        ⟨"mem".toList, 4, "10.0.0.1".toList, 4200, -1⟩ ∧
      ∀ e ∈ ((run (netStep toZero) (Net.init fours) staleRun).agents 0).server.tableNodejobs.toList,
        e.memGranted = 0 := by
  decide +kernel

end ResourceAgent.Ports.Agreement
