import ResourceAgent.Ports.Momentum

/-!
# Every handler keeps things moving

One lemma for each event of the network: what it does, under the invariants of an
undisturbed run, and that nothing stands still after it (`Moving.step`).  Beyond what
`Undisturbed` asks for, the connections a job dials are made.
-/

namespace ResourceAgent.Ports.Momentum

open ResourceAgent.Ports.HashTable
open ResourceAgent.Ports.Records
open ResourceAgent.Ports.Wire
open ResourceAgent.Ports.Client
open ResourceAgent.Ports.JobRequest
open ResourceAgent.Ports.Reservation
open ResourceAgent.Ports.Network
open ResourceAgent.Ports.NetInvariant
open ResourceAgent.Ports.Agreement
open ResourceAgent.Ports.Acquisition
open ResourceAgent.Ports.Deadlock
open ResourceAgent.Verified.CText
open ResourceAgent.Verified.Runs

/-- `ask_for_next_resource` gets its connection. -/
def connects : Dial → Bool
  | .connected _ => true
  | _ => false

theorem connects_iff {dial : Dial} : connects dial = true ↔ ∃ d, dial = .connected d := by
  cases dial <;> simp [connects]

variable {A : Type}

/-- Whatever the event dials, it gets a connection. -/
def Connected : NetEvent A → Prop
  | .erlang _ _ _ _ dial => connects dial = true
  | .line _ .client _ dial _ => connects dial = true
  | _ => True

instance : ∀ e : NetEvent A, Decidable (Connected e)
  | .erlang _ _ _ _ dial => inferInstanceAs (Decidable (connects dial = true))
  | .sweep _ _ => inferInstanceAs (Decidable True)
  | .accept _ _ _ => inferInstanceAs (Decidable True)
  | .writable _ => inferInstanceAs (Decidable True)
  | .line _ .client _ dial _ => inferInstanceAs (Decidable (connects dial = true))
  | .line _ .server _ _ _ => inferInstanceAs (Decidable True)
  | .disconnect _ _ _ => inferInstanceAs (Decidable True)
  | .fail _ _ _ => inferInstanceAs (Decidable True)

variable [DecidableEq A] {capacity : A → Resource → Int} {route : Text → Int → A}
  {used : List (A × Int)} {net : Net A} {i : Nat} {w : Wires A}

/-! ## Handlers that return -/

/-- A handler that leaves the tables alone and tells the scheduler nothing. -/
theorem actClient_silent (net : Net A) {a : A} {out : List Effect} (hOut : toldBy out = []) :
    net.actClient route a ((net.agents a).client, out) =
      { net with wires := net.wires.performAll route a out } := by
  have hAgents : (net.actClient route a ((net.agents a).client, out)).agents = net.agents := by
    funext x
    by_cases hSame : x = a
    · subst hSame
      simp [Net.actClient, hOut]
    · simp [Net.actClient, hSame]
  calc net.actClient route a ((net.agents a).client, out)
      = ⟨(net.actClient route a ((net.agents a).client, out)).agents,
          net.wires.performAll route a out⟩ := rfl
    _ = { net with wires := net.wires.performAll route a out } := by rw [hAgents]

omit [DecidableEq A] in
/-- Only the wires have changed. -/
theorem Moving.setWires (h : Moving net) (hFlowing : Flowing w (waitingOf net))
    (hReaches : ∀ a, Reaches w a (net.agents a).client) : Moving { net with wires := w } where
  flowing := hFlowing
  pursues a := ⟨hReaches a, (h.pursues a).settled⟩

/-- A handler of one client has returned. -/
theorem moving_actClient (route : Text → Int → A) (net : Net A) {a : A}
    {r : ClientState × List Effect}
    (hFlowing : Flowing w (waitingOf net))
    (hSelf : Pursues w a r.1 ((net.agents a).told ++ toldBy r.2))
    (hOthers : ∀ x, x ≠ a → Pursues w x (net.agents x).client (net.agents x).told) :
    Moving ⟨(net.actClient route a r).agents, w⟩ where
  flowing := by
    have hSame : waitingOf ⟨(net.actClient route a r).agents, w⟩ = waitingOf net := by
      funext x
      by_cases hAgent : x = a <;> simp [waitingOf, Net.actClient, hAgent]
    rw [hSame]
    exact hFlowing
  pursues x := by
    by_cases hSame : x = a
    · subst hSame
      simpa [Net.actClient] using hSelf
    · simpa [Net.actClient, hSame] using hOthers x hSame

/-- A handler of one server has returned. -/
theorem moving_actServer (route : Text → Int → A) (net : Net A) {b : A}
    {r : ServerState × List Effect}
    (hFlowing : Flowing w (fun x => if x = b then queued r.1 else waitingOf net x))
    (hPursues : ∀ a, Pursues w a (net.agents a).client (net.agents a).told) :
    Moving ⟨(net.actServer route b r).agents, w⟩ where
  flowing := by
    have hSame : waitingOf ⟨(net.actServer route b r).agents, w⟩ =
        fun x => if x = b then queued r.1 else waitingOf net x := by
      funext x
      by_cases hAgent : x = b <;> simp [waitingOf, Net.actServer, hAgent]
    rw [hSame]
    exact hFlowing
  pursues x := by
    by_cases hSame : x = b
    · subst hSame
      simpa [Net.actServer] using hPursues x
    · simpa [Net.actServer, hSame] using hPursues x

/-! ## The network -/

omit [DecidableEq A] in
/-- A connection on which an answer is awaited is open and whole at the client. -/
theorem open_of_unserved (h : Unlocked capacity route used net) {c : Conn A}
    (hConn : net.wires.conns[i]? = some c) (hServed : c.served = none) :
    ClientOpen net.wires i c ∧ c.broken = false := by
  have hOpen := h.acquiring.conns.waiting hConn hServed
  exact ⟨hOpen, h.acquiring.conns.whole hConn hOpen⟩

omit [DecidableEq A] in
/-- An open client end is whole. -/
theorem whole_of_open (h : Unlocked capacity route used net) {a : A} {fd : Int} {c : Conn A}
    (hFile : net.wires.files a fd = some (i, .client)) (hConn : net.wires.conns[i]? = some c) :
    c.broken = false := by
  obtain ⟨hClient, hFd⟩ := h.agreed.coherent.wired.at_client hFile hConn
  refine h.acquiring.conns.whole hConn ?_
  rw [ClientOpen, hClient, hFd]
  exact hFile

theorem Moving.accept (h : Moving net) {fd : Nat} {addr : Addr}
    (hEnabled : Enabled net (.accept i fd addr)) :
    Moving (netStep route net (.accept i fd addr)) := by
  obtain ⟨c, hConn, -, hFree, -⟩ := hEnabled
  have hFiles : ∀ {a fd' j}, (net.wires.accept i fd addr).files a fd' = some (j, .client) →
      net.wires.files a fd' = some (j, .client) := by
    intro a fd' j hFile
    rcases (files_accept hConn hFree).mp hFile with hOld | ⟨-, -, hNew⟩
    · exact hOld
    · cases hNew
  refine h.setWires (h.flowing.frame ?_ fun _ _ => id) fun a => ?_
  · intro j d' hConn' hServed
    rcases conns_accept hConn hConn' with ⟨rfl, rfl⟩ | ⟨-, hOld⟩
    · exact ⟨c, hConn, hServed, rfl, rfl, id, rfl⟩
    · exact ⟨d', hOld, hServed, rfl, rfl, id, rfl⟩
  · refine (h.pursues a).reaches.frame hFiles ?_
    intro fd' j d' _ hConn' hServed
    rcases conns_accept hConn hConn' with ⟨rfl, rfl⟩ | ⟨-, hOld⟩
    · exact .inr ⟨c, hConn, hServed, id⟩
    · exact .inr ⟨d', hOld, hServed, id⟩

/-- A connection that fails was given back before. -/
theorem Moving.fail (h : Moving net) (hUnlocked : Unlocked capacity route used net)
    {keepServer keepClient : Nat} (hUndisturbed : Undisturbed net (.fail i keepServer keepClient)) :
    Moving (netStep route net (.fail i keepServer keepClient)) := by
  have hClosed : ∀ c, net.wires.conns[i]? = some c → ¬ ClientOpen net.wires i c :=
    fun c hConn hOpen => hUndisturbed c hConn ⟨_, rfl, hOpen⟩
  -- every other connection is as it was
  have hOther : ∀ {j : Nat} {d' : Conn A},
      (net.wires.modify i (Conn.fail keepServer keepClient)).conns[j]? = some d' → i ≠ j →
        net.wires.conns[j]? = some d' := by
    intro j d' hConn' hNe
    rwa [conns_modify_ne hNe] at hConn'
  refine h.setWires (h.flowing.frame ?_ fun _ _ => id) fun a => ?_
  · intro j d' hConn' hServed
    by_cases hSame : i = j
    · subst hSame
      obtain ⟨c, hConn, hKept⟩ := modify_backward (f := Conn.fail keepServer keepClient)
        (R := fun c c' => c'.served = c.served) (fun _ => rfl) (fun _ _ => rfl) hConn'
      have hOpen := (open_of_unserved hUnlocked hConn (hKept.symm.trans hServed)).1
      exact absurd hOpen (hClosed c hConn)
    · exact ⟨d', hOther hConn' hSame, hServed, rfl, rfl, id, rfl⟩
  · refine (h.pursues a).reaches.frame id ?_
    intro fd' j d' hFile hConn' hServed
    by_cases hSame : i = j
    · subst hSame
      obtain ⟨c, hConn, hClient, hFd⟩ := hUnlocked.agreed.coherent.wired.client hFile
      refine absurd ?_ (hClosed c hConn)
      rw [ClientOpen, hClient, hFd]
      exact hFile
    · exact .inr ⟨d', hOther hConn' hSame, hServed, id⟩

/-! ## RESERVE is sent -/

/-- The RESERVE of a connection is handed to the network. -/
def sending (line : Text) (c : Conn A) : Conn A :=
  Conn.push .client line { c with armed := false }

/-- What `send_request` does. -/
theorem netStep_writable (h : Unlocked capacity route used net) (hMoving : Moving net)
    (hEnabled : Enabled net (.writable i)) :
    ∃ c line, net.wires.conns[i]? = some c ∧ c.armed = true ∧ c.served = none ∧
      c.broken = false ∧
      netStep route net (.writable i) =
        { net with wires := net.wires.modify i (sending line) } := by
  obtain ⟨c, hConn, hArmed, fd, hFd, hFile⟩ := hEnabled
  cases hFd
  rw [Option.mem_def] at hConn
  have hFile : net.wires.files c.client c.clientFd = some (i, .client) := hFile
  have hFlow := h.agreed.coherent.flow hConn
  have hReceived := (hFlow.armed hArmed).1
  have hServed : c.served = none := by
    cases hSome : c.served with
    | none => rfl
    | some x =>
        rw [hFlow.served hSome] at hReceived
        cases hReceived
  have hTidy := h.agreed.tidy c.client
  -- the connection is used, and not for something the job already has
  obtain ⟨job, hOwner, req, rest, hNext⟩ : ∃ job,
      (net.agents c.client).client.owner c.clientFd = some job ∧
        ∃ req rest, job.nextReq = req :: rest := by
    rcases (hMoving.pursues c.client).reaches.used hFile with ⟨e, he, hFd⟩ | ⟨x, hx, g, hg, hFd⟩
    · obtain ⟨-, x, hx, hAddr, hWaits, -⟩ := hTidy.entries e he
      refine ⟨x, (ClientState.owner_eq_some hTidy.addrKeys).mpr ⟨?_, hx⟩,
        List.exists_cons_of_ne_nil hWaits⟩
      rw [← hFd, hAddr]
      exact he
    · obtain ⟨j, d, hFile', hConn', -, hSome⟩ := (h.agreed.coherent.asks c.client).held x hx g hg
      have hSameFile : net.wires.files c.client c.clientFd = some (j, .client) := hFd ▸ hFile'
      rw [hFile] at hSameFile
      cases hSameFile
      rw [hConn] at hConn'
      cases hConn'
      rw [hServed] at hSome
      cases hSome
  refine ⟨c, reserveLine job.jobId req.type req.amount, hConn, hArmed, hServed,
    (open_of_unserved h hConn hServed).2, ?_⟩
  have hFile' : (net.wires.modify i fun c => { c with armed := false }).files c.client c.clientFd =
      some (i, .client) := hFile
  simp only [netStep, hConn, clientStep, sendRequest, hOwner, hNext]
  rw [actClient_silent { net with wires := _ } rfl]
  rw [performAll_send hFile']
  simp only [Wires.modify, List.modify_modify_eq]
  rfl

theorem Moving.writable (h : Moving net) (hUnlocked : Unlocked capacity route used net)
    (hEnabled : Enabled net (.writable i)) : Moving (netStep route net (.writable i)) := by
  obtain ⟨c, line, hConn, -, hServed, hWhole, hStep⟩ := netStep_writable hUnlocked h hEnabled
  rw [hStep]
  have hSent : sending line c = { c with armed := false, toServer := c.toServer ++ [line] } := by
    simp [sending, Conn.push, hWhole]
  have hConns : ∀ {j : Nat} {d' : Conn A}, (net.wires.modify i (sending line)).conns[j]? = some d' →
      (i = j ∧ d' = sending line c) ∨ net.wires.conns[j]? = some d' := by
    intro j d' hConn'
    by_cases hSame : i = j
    · subst hSame
      rw [conns_modify_self hConn] at hConn'
      exact .inl ⟨rfl, (Option.some.inj hConn').symm⟩
    · rw [conns_modify_ne hSame] at hConn'
      exact .inr hConn'
  refine h.setWires ⟨?_, ?_⟩ fun a => (h.pursues a).reaches.frame id ?_
  · intro j d' hConn' hServed'
    rcases hConns hConn' with ⟨-, rfl⟩ | hOld
    · refine .inr (.inl ?_)
      simp [hSent]
    · exact h.flowing.sent hOld hServed'
  · intro j d' hConn' hServed' x hReceived
    rcases hConns hConn' with ⟨-, rfl⟩ | hOld
    · rw [hSent] at hReceived ⊢
      exact h.flowing.queued hConn hServed hReceived
    · exact h.flowing.queued hOld hServed' hReceived
  · intro fd j d' _ hConn' hServed'
    rcases hConns hConn' with ⟨-, rfl⟩ | hOld
    · rw [hSent, hServed] at hServed'
      cases hServed'
    · exact .inr ⟨d', hOld, hServed', id⟩

/-! ## Lines at the server -/

omit [DecidableEq A] in
/-- A line that is read at the server end: the RESERVE of the connection, or a
RELEASE. -/
theorem lineServer_cases (h : Unlocked capacity route used net) {now : Int} {dial : Dial}
    {names : Int → Option Addr} (hEnabled : Enabled net (.line i .server now dial names)) :
    ∃ (c : Conn A) (fd : Int) (addr : Addr) (text : Text),
      net.wires.conns[i]? = some c ∧ net.wires.files c.server fd = some (i, .server) ∧
      c.serverEnd = some (fd, addr) ∧ c.toServer = [text] ∧ net.wires.Named c.server names ∧
      ((parseRemote text = .reserve c.jobId c.req.type c.req.amount ∧ c.served = none) ∨
        (parseRemote text = .release ∧ ¬ ClientOpen net.wires i c)) := by
  obtain ⟨c, hConn, ⟨fd, hFd, hFile⟩, hInbox, -, hNamed⟩ := hEnabled
  rw [Option.mem_def] at hConn
  have hFile : net.wires.files c.server fd = some (i, .server) := hFile
  obtain ⟨-, addr, hEnd⟩ := h.agreed.coherent.wired.at_server hFile hConn
  have hFlow := h.agreed.coherent.flow hConn
  rcases hFlow.toServer with hNil | ⟨hReserve, -⟩ | ⟨⟨line, hLine, hParse⟩, hClosed⟩
  · exact absurd hNil hInbox
  · have hParse := parseRemote_reserveLine hFlow.job hFlow.req.2 hFlow.req.1
    obtain ⟨-, -, -, -, -, hServed⟩ := hFlow.reserve hReserve hParse
    exact ⟨c, fd, addr, _, hConn, hFile, hEnd, hReserve, hNamed, .inl ⟨hParse, hServed⟩⟩
  · exact ⟨c, fd, addr, line, hConn, hFile, hEnd, hLine, hNamed, .inr ⟨hParse, hClosed⟩⟩

/-- What the drain after a RESERVE does. -/
theorem answered_reserve (route : Text → Int → A) (h : Unlocked capacity route used net)
    {c : Conn A} {fd : Int}
    {text : Text} {names : Int → Option Addr} (hConn : net.wires.conns[i]? = some c)
    (hFile : net.wires.files c.server fd = some (i, .server)) (hLine : c.toServer = [text])
    (hParse : parseRemote text = .reserve c.jobId c.req.type c.req.amount)
    (hNamed : net.wires.Named c.server names) :
    ∃ grants,
      Coherent (readLine net i .server c.server).wires (clientsOf net) (fun x =>
        if x = c.server then
          (queued (enqueueOnly (net.agents c.server).server (Resource.ofName c.req.type)
            (makeRequest (net.agents c.server).server c.jobId fd c.req.amount)),
            (net.agents c.server).server.tableNodejobs)
        else serversOf net x) ∧
      Answered c.server grants (readLine net i .server c.server).wires
        ((readLine net i .server c.server).wires.performAll route c.server
          (enqueueJobs (asPeers names) (net.agents c.server).server c.req.type c.jobId
            c.req.amount fd).2) ∧
      (queued (enqueueOnly (net.agents c.server).server (Resource.ofName c.req.type)
        (makeRequest (net.agents c.server).server c.jobId fd c.req.amount))).Perm
          (grants.map (fun g => (g.resource, g.req)) ++
            queued (enqueueJobs (asPeers names) (net.agents c.server).server c.req.type c.jobId
              c.req.amount fd).1) := by
  have hReadNamed : (readLine net i .server c.server).wires.Named c.server names :=
    (Steady.modify (read_same .server _)).named hNamed
  obtain ⟨⟨grants, hDrain⟩, -⟩ := enqueueJobs_drained (asPeers names)
    (net.agents c.server).server c.req.type c.jobId c.req.amount fd
  have hWaits := h.agreed.coherent.reserve (s := (net.agents c.server).server)
    hFile hConn hLine hParse rfl
  have hPerm := (queued_enqueueOnly (net.agents c.server).server (Resource.ofName c.req.type)
    (makeRequest (net.agents c.server).server c.jobId fd c.req.amount)).symm
  have hQueued := (hWaits.setServer (((by simpa using hWaits.serves c.server) :
    Serves _ c.server _ _).perm hPerm)).overwriteServer
  exact ⟨grants, hQueued, answered_drained hQueued (if_pos rfl) hReadNamed hDrain,
    queued_drained hDrain⟩

/-- What the drain after the end of a client does. -/
theorem answered_release (route : Text → Int → A) {w : Wires A} {clients : A → ClientState}
    {servers : A → List (Resource × Request) × Table jobCallbacks} (h : Coherent w clients servers)
    {b : A} {c : Conn A} {fd : Int} {s : ServerState} {names : Int → Option Addr}
    (hServer : servers b = (queued s, s.tableNodejobs)) (hConn : w.conns[i]? = some c)
    (hFile : w.files b fd = some (i, .server)) (hDead : ¬ Live w i c) (hNamed : w.Named b names) :
    ∃ grants,
      Answered b grants w (w.performAll route b (releaseClientByFd (asPeers names) s fd).2) ∧
      (queued s).Perm (grants.map (fun g => (g.resource, g.req)) ++
        queued (releaseClientByFd (asPeers names) s fd).1) := by
  rcases releaseClientByFd_cases (asPeers names) s fd with ⟨-, hIdle⟩ | ⟨⟨grants, hDrain⟩, -⟩
  · rw [hIdle]
    exact ⟨[], .refl b w, .refl _⟩
  · have hCredit := h.credit hFile hConn hDead hServer
    have hSplit : (queued (creditOnly s fd)).Perm _ := queued_drained hDrain
    exact ⟨grants, answered_drained hCredit (if_pos rfl) hNamed hDrain, hSplit⟩

omit [DecidableEq A] in
/-- A RELEASE is taken from its connection. -/
theorem coherent_readRelease (h : Agreed net) {c : Conn A} {text : Text}
    (hConn : net.wires.conns[i]? = some c) (hLine : c.toServer = [text])
    (hParse : parseRemote text = .release) :
    Coherent (readLine net i .server c.server).wires (clientsOf net) (serversOf net) := by
  have hRead : Conn.read .server (net.agents c.server).server c = { c with toServer := [] } := by
    simp [Conn.read, Conn.reserveRead, hLine, hParse]
  have hSame : ∀ d, net.wires.conns[i]? = some d → d = c :=
    fun d hConn' => Option.some.inj (hConn'.symm.trans hConn)
  refine h.coherent.modify ?_ ?_
  · intro d hConn'
    rw [hSame d hConn', hRead]
    exact ⟨⟨rfl, rfl, rfl, rfl, rfl, rfl⟩, rfl, rfl, id⟩
  · intro d hConn'
    have hFlow := h.coherent.flow hConn
    rw [hSame d hConn', hRead]
    refine ⟨hFlow.job, hFlow.req, .inl rfl, ?_, hFlow.received, hFlow.served, hFlow.toClient,
      hFlow.accepted⟩
    exact fun hArmed => ⟨(hFlow.armed hArmed).1, rfl⟩

/-- RESERVE and RELEASE. -/
theorem Moving.lineServer (h : Moving net) (hUnlocked : Unlocked capacity route used net)
    {now : Int} {dial : Dial} {names : Int → Option Addr}
    (hEnabled : Enabled net (.line i .server now dial names)) :
    Moving (netStep route net (.line i .server now dial names)) := by
  obtain ⟨c, fd, addr, text, hConn, hFile, hEnd, hLine, hNamed, hKind⟩ :=
    lineServer_cases hUnlocked hEnabled
  have hOrdered := hUnlocked.acquiring.conns
  have hReadNamed : (readLine net i .server c.server).wires.Named c.server names :=
    (Steady.modify (read_same .server _)).named hNamed
  have hReadOrdered : Ordered capacity used (readLine net i .server c.server).wires :=
    hOrdered.calm (calm_of_steady (.modify (read_same .server _)))
  have hSelf : (readLine net i .server c.server).wires.conns[i]? =
      some (Conn.read .server (net.agents c.server).server c) := conns_modify_self hConn
  have hOther : ∀ {j : Nat} {d : Conn A}, i ≠ j →
      (readLine net i .server c.server).wires.conns[j]? = some d →
        net.wires.conns[j]? = some d := by
    intro j d hNe hConn'
    exact (conns_modify_ne hNe).symm.trans hConn'
  -- reading a line does not concern the client ends
  have hReaches : ∀ a, Reaches (readLine net i .server c.server).wires a
      (net.agents a).client := by
    intro a
    refine (h.pursues a).reaches.frame id ?_
    intro fd' j d' _ hConn' hServed
    by_cases hSame : i = j
    · subst hSame
      rw [hSelf] at hConn'
      cases hConn'
      exact .inr ⟨c, hConn, hServed, id⟩
    · exact .inr ⟨d', hOther hSame hConn', hServed, id⟩
  have hWhole : ∀ {a fd j} {d : Conn A},
      (readLine net i .server c.server).wires.files a fd = some (j, .client) →
      (readLine net i .server c.server).wires.conns[j]? = some d → d.broken = false := by
    intro a fd j d hFile' hConn'
    obtain ⟨d', hOld, hSame⟩ := (Steady.modify (w := net.wires) (read_same .server _)).conns hConn'
    rw [hSame.broken]
    exact whole_of_open hUnlocked hFile' hOld
  rcases hKind with ⟨hParse, hServed⟩ | ⟨hParse, hClosed⟩
  · obtain ⟨grants, hCoherent, hAnswered, hSplit⟩ :=
      answered_reserve route hUnlocked hConn hFile hLine hParse hNamed
    rw [netStep_reserve hConn hEnd hLine hParse]
    have hRead : Conn.read .server (net.agents c.server).server c =
        reserving (Resource.ofName c.req.type)
          (makeRequest (net.agents c.server).server c.jobId fd c.req.amount) c := by
      simp only [Conn.read, Conn.reserveRead, hLine, hEnd, List.head?_cons, Option.map_some, hParse,
        List.tail_cons, reserving]
    have hEnqueued := queued_enqueueOnly (net.agents c.server).server
      (Resource.ofName c.req.type)
      (makeRequest (net.agents c.server).server c.jobId fd c.req.amount)
    have hFlowing : Flowing (readLine net i .server c.server).wires (fun x =>
        if x = c.server then
          queued (enqueueOnly (net.agents c.server).server (Resource.ofName c.req.type)
            (makeRequest (net.agents c.server).server c.jobId fd c.req.amount))
        else waitingOf net x) := by
      constructor
      · intro j d hConn' hServed'
        by_cases hSame : i = j
        · subst hSame
          rw [hSelf] at hConn'
          cases hConn'
          rw [hRead]
          exact .inr (.inr rfl)
        · exact h.flowing.sent (hOther hSame hConn') hServed'
      · intro j d hConn' hServed' x hReceived
        by_cases hSame : i = j
        · subst hSame
          rw [hSelf] at hConn'
          cases hConn'
          rw [hRead] at hReceived
          cases hReceived
          rw [if_pos (read_same .server _ c).server]
          exact hEnqueued.mem_iff.mpr List.mem_cons_self
        · have hIn := h.flowing.queued (hOther hSame hConn') hServed' hReceived
          split
          · rename_i hAgent
            rw [hAgent] at hIn
            exact hEnqueued.mem_iff.mpr (List.mem_cons_of_mem _ hIn)
          · exact hIn
    have hDone := hFlowing.answered hAnswered
      (fun hConn' hServed' => files_of_received hCoherent hReadOrdered hConn' hServed')
      (by simpa using hSplit)
    rw [overwrite] at hDone
    refine moving_actServer route (readLine net i .server c.server) hDone fun a => ?_
    exact ⟨(hReaches a).answered_by hAnswered hWhole, (h.pursues a).settled⟩
  · rw [netStep_release hConn hEnd hLine hParse]
    have hFlowing : Flowing (readLine net i .server c.server).wires (waitingOf net) := by
      refine h.flowing.frame ?_ fun _ _ => id
      intro j d hConn' hServed'
      by_cases hSame : i = j
      · subst hSame
        rw [hSelf] at hConn'
        cases hConn'
        exact absurd (open_of_unserved hUnlocked hConn hServed').1 hClosed
      · exact ⟨d, hOther hSame hConn', hServed', rfl, rfl, id, rfl⟩
    have hCoherent := coherent_readRelease hUnlocked.agreed hConn hLine hParse
    have hDead : ¬ Live (readLine net i .server c.server).wires i
        (Conn.read .server (net.agents c.server).server c) := fun hLive => hClosed hLive.1
    obtain ⟨grants, hAnswered, hSplit⟩ := answered_release route hCoherent rfl hSelf
      hFile hDead hReadNamed
    have hDone := hFlowing.answered hAnswered
      (fun hConn' hServed' => files_of_received hCoherent hReadOrdered hConn' hServed') hSplit
    refine moving_actServer route (readLine net i .server c.server) hDone fun a => ?_
    exact ⟨(hReaches a).answered_by hAnswered hWhole, (h.pursues a).settled⟩

/-- The end of a connection at the server. -/
theorem Moving.disconnectServer (h : Moving net) (hUnlocked : Unlocked capacity route used net)
    {names : Int → Option Addr} (hEnabled : Enabled net (.disconnect i .server names)) :
    Moving (netStep route net (.disconnect i .server names)) := by
  obtain ⟨c, hConn, ⟨fd, hFd, hFile⟩, -, hOver, hNamed⟩ := hEnabled
  rw [Option.mem_def] at hConn
  have hFile : net.wires.files c.server fd = some (i, .server) := hFile
  obtain ⟨-, addr, hEnd⟩ := hUnlocked.agreed.coherent.wired.at_server hFile hConn
  have hDead : ¬ Live net.wires i c := by
    rintro ⟨hOpen, hWhole⟩
    rcases hOver with hBroken | ⟨fd', hFd', hClosed⟩
    · rw [hWhole] at hBroken
      cases hBroken
    · cases hFd'
      exact hClosed hOpen
  rw [netStep_disconnect_server hConn hEnd (hUnlocked.agreed.owner_server hFile)]
  obtain ⟨grants, hAnswered, hSplit⟩ := answered_release route
    hUnlocked.agreed.coherent rfl hConn hFile hDead hNamed
  have hFlowing := h.flowing.answered hAnswered (fun hConn' hServed' =>
    files_of_received hUnlocked.agreed.coherent hUnlocked.acquiring.conns hConn' hServed') hSplit
  refine moving_actServer route _ ⟨hFlowing.sent, hFlowing.queued⟩
    fun a => ⟨?_, (h.pursues a).settled⟩
  refine ((h.pursues a).reaches.answered_by hAnswered (whole_of_open hUnlocked)).frame ?_ ?_
  · exact fun hOpen => (files_close.mp hOpen).1
  · exact fun _ hConn' hServed => .inr ⟨_, hConn', hServed, id⟩

/-! ## Lines at the client -/

/-- The state of a client after GRANTED on `fd`, before the job asks again. -/
def granted (s : ClientState) (job : LocalJob) (fd now : Int) : ClientState :=
  (s.writeJob (LocalJob.advance job fd now)).removeEntry fd

/-- What GRANTED does: nothing, or the job that waits on the connection moves on. -/
theorem netStep_answer (h : Unlocked capacity route used net) {now : Int} {dial : Dial}
    {names : Int → Option Addr} (hEnabled : Enabled net (.line i .client now dial names)) :
    ∃ c, net.wires.conns[i]? = some c ∧ ClientOpen net.wires i c ∧
      c.served.isSome = true ∧ (∃ text, c.toClient = [text]) ∧ net.wires.Free c.client dial ∧
      (((net.agents c.client).client.owner c.clientFd = none ∧
          netStep route net (.line i .client now dial names) = readLine net i .client c.client) ∨
        ∃ job ∈ (net.agents c.client).client.jobs,
          ⟨c.clientFd, job.addr⟩ ∈ (net.agents c.client).client.entries ∧ job.nextReq ≠ [] ∧
          netStep route net (.line i .client now dial names) =
            (readLine net i .client c.client).actClient route c.client
              ((askForNextResource dial (granted (net.agents c.client).client job c.clientFd now)
                (LocalJob.advance job c.clientFd now)).1,
              .epollDel c.clientFd ::
                (askForNextResource dial (granted (net.agents c.client).client job c.clientFd now)
                  (LocalJob.advance job c.clientFd now)).2)) := by
  obtain ⟨c, hConn, ⟨fd, hFd, hFile⟩, hInbox, hFree, -⟩ := hEnabled
  rw [Option.mem_def] at hConn
  cases hFd
  have hFile : net.wires.files c.client c.clientFd = some (i, .client) := hFile
  obtain ⟨text, rest, hLine⟩ : ∃ text rest, c.toClient = text :: rest :=
    List.exists_cons_of_ne_nil hInbox
  obtain ⟨rfl, hParse, hServed, -⟩ := Flow.granted (h.agreed.coherent.flow hConn) hFile hLine
  have hTidy := h.agreed.tidy c.client
  refine ⟨c, hConn, hFile, hServed, ⟨text, hLine⟩, hFree, ?_⟩
  rw [netStep_granted hConn hLine hParse]
  simp only [clientToMyserver]
  cases hOwner : (net.agents c.client).client.owner c.clientFd with
  | none =>
      left
      simp only [true_and]
      exact actClient_silent (readLine net i .client c.client) rfl
  | some job =>
      right
      obtain ⟨hEntry, hJob⟩ := (ClientState.owner_eq_some hTidy.addrKeys).mp hOwner
      -- the job waits on this connection, which was made for it
      obtain ⟨j, d, hFile', hConn', x, hx, hAddr, hId, hHead⟩ :=
        (h.agreed.coherent.asks c.client).entry _ hEntry
      rw [hFile] at hFile'
      cases hFile'
      rw [hConn] at hConn'
      cases hConn'
      obtain rfl := hTidy.addrKeys x hx job hJob hAddr
      refine ⟨x, hJob, hEntry, ?_, ?_⟩
      · intro hNil
        rw [hNil] at hHead
        cases hHead
      · simp only [hId, if_true]
        rfl

omit [DecidableEq A] in
/-- The job that moves on is stored. -/
theorem granted_stored {s : ClientState} {job : LocalJob} (hTidy : Tidy s)
    (hJob : job ∈ s.jobs) (fd now : Int) :
    (granted s job fd now).AddrKeys ∧ LocalJob.advance job fd now ∈ (granted s job fd now).jobs ∧
      IsInt (LocalJob.advance job fd now).jobId := by
  have hChanged := advance_changed hTidy.addrKeys hJob fd now
  refine ⟨hChanged.addrKeys hTidy.addrKeys ?_, hChanged.mem_self, ?_⟩
  · rintro x ⟨⟩
    exact LocalJob.advance_addr job fd now
  · rw [LocalJob.advance_jobId]
    exact hTidy.ids job hJob

omit [DecidableEq A] in
/-- GRANTED, and the job asks for its next resource. -/
theorem granted_asked {s : ClientState} {job : LocalJob} (hTidy : Tidy s)
    (hJob : job ∈ s.jobs) (fd now : Int) (dial : Dial) :
    Changed s
      (askForNextResource dial (granted s job fd now) (LocalJob.advance job fd now)).1 job.addr
      (some (asked dial (LocalJob.advance job fd now)).job)
      ([fd] ++ (asked dial (LocalJob.advance job fd now)).dropped)
      (asked dial (LocalJob.advance job fd now)).added := by
  obtain ⟨hKeys, hStored, hInt⟩ := granted_stored hTidy hJob fd now
  exact (advance_changed hTidy.addrKeys hJob fd now).then (LocalJob.advance_addr job fd now)
    (askForNextResource_changed hKeys hStored hInt dial).1

/-- The entries that stay after GRANTED are those of other jobs. -/
theorem granted_entries {s : ClientState} {job : LocalJob} {fd now : Int} (hTidy : Tidy s)
    (hJob : job ∈ s.jobs) (hEntry : ⟨fd, job.addr⟩ ∈ s.entries) {e : FdJobEntry}
    (he : e ∈ (granted s job fd now).entries) : e ∈ s.entries ∧ e.job ≠ job.addr := by
  obtain ⟨hOld, hNe⟩ := ClientState.mem_entries_removeEntry.mp he
  refine ⟨hOld, fun hSame => hNe ?_⟩
  rw [Tidy.entry_socket hTidy hJob hOld hSame]
  exact (Tidy.entry_socket hTidy hJob hEntry rfl).symm

/-- A job other than the one that moves on stays where it is. -/
theorem Settled.granted {s : ClientState} {told : List (Instruction × Text)} {job x : LocalJob}
    {fd now : Int} (h : Settled s told x) (hTidy : Tidy s) (hJob : job ∈ s.jobs)
    (hEntry : ⟨fd, job.addr⟩ ∈ s.entries) (hOther : x.addr ≠ job.addr) :
    Settled (granted s job fd now) told x := by
  refine h.changed (advance_changed hTidy.addrKeys hJob fd now) ?_
  intro e he hSame hDropped
  rw [List.mem_singleton] at hDropped
  have hBoth : e = ⟨fd, job.addr⟩ := ClientState.eq_of_fd he hEntry hDropped
  rw [hBoth] at hSame
  exact hOther hSame.symm

/-- GRANTED. -/
theorem Moving.lineClient (h : Moving net) (hUnlocked : Unlocked capacity route used net)
    {now : Int} {d : Nat} {names : Int → Option Addr}
    (hEnabled : Enabled net (.line i .client now (.connected d) names)) :
    Moving (netStep route net (.line i .client now (.connected d) names)) := by
  obtain ⟨c, hConn, hOpen, hServed, ⟨text, hLine⟩, hFree, hKind⟩ :=
    netStep_answer hUnlocked hEnabled
  have hFree : net.wires.files c.client d = none := hFree
  have hSelf : (readLine net i .client c.client).wires.conns[i]? =
      some (Conn.read .client (net.agents c.client).server c) := conns_modify_self hConn
  have hOther : ∀ {j : Nat} {d : Conn A}, i ≠ j →
      (readLine net i .client c.client).wires.conns[j]? = some d →
        net.wires.conns[j]? = some d := by
    intro j d hNe hConn'
    exact (conns_modify_ne hNe).symm.trans hConn'
  have hFlowing : Flowing (readLine net i .client c.client).wires (waitingOf net) := by
    refine h.flowing.frame ?_ fun _ _ => id
    intro j d' hConn' hServed'
    by_cases hSame : i = j
    · subst hSame
      rw [hSelf] at hConn'
      cases hConn'
      rw [show c.served = none from hServed'] at hServed
      cases hServed
    · exact ⟨d', hOther hSame hConn', hServed', rfl, rfl, id, rfl⟩
  -- the line is read from a connection that is under no other entry
  have hReaches : ∀ {a s}, Reaches net.wires a s →
      (∀ e ∈ s.entries, a = c.client → e.fd ≠ c.clientFd) →
      Reaches (readLine net i .client c.client).wires a s := by
    intro a s hOld hEntries
    refine ⟨hOld.natural, hOld.used, ?_⟩
    intro j d' e he hFile hConn' hServed'
    have hFile : net.wires.files a e.fd = some (j, .client) := hFile
    by_cases hSame : i = j
    · subst hSame
      obtain ⟨hClient, hFd⟩ := hUnlocked.agreed.coherent.wired.at_client hFile hConn
      exact absurd hFd.symm (hEntries e he hClient.symm)
    · exact hOld.answered e he hFile (hOther hSame hConn') hServed'
  rcases hKind with ⟨hOwner, hStep⟩ | ⟨job, hJob, hEntry, hNext, hStep⟩
  · rw [hStep]
    have hTidy := hUnlocked.agreed.tidy c.client
    refine h.setWires hFlowing fun a => hReaches (h.pursues a).reaches ?_
    rintro e he rfl hFd
    obtain ⟨-, x, hx, hAddr, -⟩ := hTidy.entries e he
    have hSome : (net.agents c.client).client.owner c.clientFd = some x :=
      (ClientState.owner_eq_some hTidy.addrKeys).mpr ⟨by rw [hAddr, ← hFd]; exact he, hx⟩
    rw [hOwner] at hSome
    cases hSome
  · rw [hStep]
    have hTidy := hUnlocked.agreed.tidy c.client
    have hAddr := LocalJob.advance_addr job c.clientFd now
    have hChanged := advance_changed hTidy.addrKeys hJob c.clientFd now
    obtain ⟨hKeys, hStored, hId⟩ := granted_stored hTidy hJob c.clientFd now
    have hFree' : (readLine net i .client c.client).wires.files c.client d = none := hFree
    have hGranted := hReaches
      ((h.pursues c.client).reaches.advance hTidy.addrKeys hJob hNext c.clientFd now)
      (fun e he _ => (ClientState.mem_entries_removeEntry.mp he).2)
    have hAsked := Pursues.ask route (net.agents c.client).told hGranted hKeys
      hStored hId
      (fun e he => (hUnlocked.agreed.coherent.asks c.client).open_of_uses
        (.inl ⟨e, (granted_entries hTidy hJob hEntry he).1, rfl⟩))
      ?_ hFree'
    · refine moving_actClient route (readLine net i .client c.client)
        (hFlowing.ask hKeys hStored hId hFree') hAsked fun x hOther => ?_
      refine ⟨Reaches.askElsewhere ?_ hOther hKeys hStored hId hFree',
        (h.pursues x).settled⟩
      exact hReaches (h.pursues x).reaches fun _ _ hSame => absurd hSame hOther
    · intro x hx hNe
      rw [hAddr] at hNe
      rcases (hChanged.jobs x).mp hx with hNew | ⟨hOld, -⟩
      · cases hNew
        exact absurd hAddr hNe
      · exact ((h.pursues c.client).settled x hOld).granted hTidy hJob hEntry hNe

/-! ## Lines of the scheduler -/

/-- JOB_REQUEST. -/
theorem Moving.request (h : Moving net) (hUnlocked : Unlocked capacity route used net) {a : A}
    {jobId timer : Int} {picks : Picks} {nodes : Table nodeCallbacks} {d : Nat}
    (hInt : IsInt jobId) (hFresh : (a, jobId) ∉ used) (hFree : net.wires.files a d = none) :
    Moving (netStep route net (.erlang a (jobRequestFormat jobId picks) timer nodes
      (.connected d))) := by
  have hTidy := hUnlocked.agreed.tidy a
  have hPursues := h.pursues a
  simp only [netStep, clientStep, parseErlang_jobRequestFormat hInt]
  cases (wanted picks).map fun type => resourceToString type (picks type) with
  | nil =>
      simp only [erlangToC]
      refine moving_actClient route _ ?_ ?_ fun x _ => ?_
      · rw [performAll_cToErlang]
        exact h.flowing
      · rw [performAll_cToErlang]
        exact hPursues.frame hPursues.reaches
      · rw [performAll_cToErlang]
        exact h.pursues x
  | cons token tokens =>
      have hAbsent : ∀ x ∈ (clientsOf net a).jobs, x.jobId ≠ atoi (itoa jobId) := by
        intro x hx hSame
        refine hFresh ?_
        rw [← atoi_itoa hInt, ← hSame]
        exact (hUnlocked.acquiring.jobs a x hx).used
      let newjob := makeJob (clientsOf net a) (atoi (itoa jobId))
        (parseDestinations nodes (token :: tokens)) timer
      have hMade : newjob = makeJob (clientsOf net a) newjob.jobId newjob.nextReq newjob.timer :=
        rfl
      have hNew := insertJob_changed hTidy hAbsent hMade
      have hKeys := hNew.addrKeys hTidy.addrKeys (by rintro x ⟨⟩; rfl)
      have hId : IsInt (atoi (itoa jobId)) := atoi_isInt _
      have hStored : Reaches net.wires a ((clientsOf net a).insertJob newjob) :=
        hPursues.reaches.insertJob hTidy hAbsent hMade
      have hAsked := Pursues.ask route (net.agents a).told hStored hKeys
        hNew.mem_self hId
        (fun e he => (hUnlocked.agreed.coherent.asks a).open_of_uses (.inl ⟨e, he, rfl⟩)) ?_ hFree
      · simp only [erlangToC]
        refine moving_actClient route _ (h.flowing.ask hKeys hNew.mem_self hId hFree) hAsked
          fun x hOther => ?_
        exact ⟨(h.pursues x).reaches.askElsewhere hOther hKeys hNew.mem_self hId hFree,
          (h.pursues x).settled⟩
      · intro x hx hOther
        rcases (hNew.jobs x).mp hx with hSame | ⟨hOld, -⟩
        · cases hSame
          exact absurd rfl hOther
        · exact hPursues.settled x hOld

/-- RELEASE is put on the connections of a job. -/
theorem conns_releaseAll_grown {a : A} {jobId : Int} {i : Nat} {c' : Conn A}
    (gs : List PendingResource) :
    ∀ {w : Wires A},
      (w.performAll route a (gs.flatMap (releaseProvider jobId))).conns[i]? = some c' →
        ∃ c, w.conns[i]? = some c ∧ Grown c c' := by
  induction gs with
  | nil => exact fun hConn => ⟨c', hConn, .refl c'⟩
  | cons g gs ih =>
      intro w hConn
      rw [List.flatMap_cons, performAll_append] at hConn
      obtain ⟨d, hConn', hGrown⟩ := ih hConn
      unfold releaseProvider at hConn'
      split at hConn'
      · have hSent : (w.perform route a (.send g.providerFd
            (releaseLine jobId g.type g.amount))).conns[i]? = some d := hConn'
        simp only [Wires.perform] at hSent
        split at hSent
        · obtain ⟨c, hConn'', hGrown'⟩ := modify_backward Grown.refl
            (fun c _ => push_grown _ _ c) hSent
          exact ⟨c, hConn'', hGrown'.trans hGrown⟩
        · exact ⟨d, hSent, hGrown⟩
      · exact ⟨d, hConn', hGrown⟩

/-- What JOB_RELEASE does to a job that has got everything. -/
theorem netStep_finished (route : Text → Int → A) (h : Unlocked capacity route used net) {a : A}
    {instruction jobId : Text}
    (timer : Int) (nodes : Table nodeCallbacks) (dial : Dial) {job : LocalJob}
    (hParse : parseErlang instruction = .jobRelease jobId)
    (hFind : (net.agents a).client.findJob (atoi jobId) = some job) (hDone : job.nextReq = []) :
    (∀ e ∈ (net.agents a).client.entries, e.fd ≠ job.originSocket) ∧
      ∃ s', Changed (net.agents a).client s' job.addr none [job.originSocket] [] ∧
        netStep route net (.erlang a instruction timer nodes dial) =
          net.actClient route a (s', released job) := by
  obtain ⟨hJob, -⟩ := ClientState.findJob_eq_some.mp hFind
  have hTidy := h.agreed.tidy a
  obtain ⟨hNone, hTorn⟩ := (h.acquiring.jobs a job hJob).tearDown hTidy
    (h.agreed.coherent.asks a) hJob hDone
  refine ⟨hNone, _, tearDown_release_changed hTidy hJob, ?_⟩
  have hTorn : tearDown (net.agents a).client job = ((net.agents a).client, []) := hTorn
  simp only [netStep, clientStep, hParse, erlangToC, hFind]
  rw [show (tearDown (net.agents a).client job).2 = [] by rw [hTorn]]
  rfl

/-- JOB_RELEASE. -/
theorem Moving.finished (h : Moving net) (hUnlocked : Unlocked capacity route used net) {a : A}
    {instruction jobId : Text} {timer : Int} {nodes : Table nodeCallbacks} {dial : Dial}
    {job : LocalJob} (hParse : parseErlang instruction = .jobRelease jobId)
    (hFind : (net.agents a).client.findJob (atoi jobId) = some job) (hDone : job.nextReq = []) :
    Moving (netStep route net (.erlang a instruction timer nodes dial)) := by
  obtain ⟨hJob, -⟩ := ClientState.findJob_eq_some.mp hFind
  have hTidy := hUnlocked.agreed.tidy a
  obtain ⟨hNone, s', hChanged, hStep⟩ := netStep_finished route hUnlocked timer nodes dial hParse
    hFind hDone
  rw [hStep]
  have hConns : ∀ {i : Nat} {c' : Conn A},
      (net.wires.performAll route a (released job)).conns[i]? = some c' →
        ∃ c, net.wires.conns[i]? = some c ∧ Grown c c' := conns_releaseAll_grown _
  have hFiles : ∀ {x fd y}, (net.wires.performAll route a (released job)).files x fd = some y →
      net.wires.files x fd = some y := fun hFile => ((files_releaseAll _).mp hFile).1
  refine moving_actClient route _ (h.flowing.grown hConns) ⟨⟨?_, ?_, ?_⟩, fun x hx => ?_⟩
    fun x _ => ⟨(h.pursues x).reaches.grown hFiles hConns, (h.pursues x).settled⟩
  · exact fun hFile => (h.pursues a).reaches.natural (hFiles hFile)
  · intro fd i hFile
    obtain ⟨hOld, hKept⟩ := (files_releaseAll _).mp hFile
    refine Uses.changed ((h.pursues a).reaches.used hOld) hChanged ?_ ?_
    · rintro e he rfl
      simpa using hNone e he
    · intro x hx hAddr g hg hFd
      obtain rfl := hTidy.addrKeys x hx job hJob hAddr
      refine absurd ⟨rfl, hFd.symm⟩ (hKept g hg ?_)
      rw [hFd]
      exact (h.pursues a).reaches.natural hOld
  · intro i c' e he hFile hConn' hServed
    rcases (hChanged.entries e).mp he with hNew | ⟨hOld, -⟩
    · cases hNew
    · obtain ⟨c, hConn, hGrown⟩ := hConns hConn'
      exact hGrown.toClient ((h.pursues a).reaches.answered e hOld (hFiles hFile) hConn
        (hGrown.served ▸ hServed))
  · rcases (hChanged.jobs x).mp hx with hNew | ⟨hOld, -⟩
    · cases hNew
    · refine (((h.pursues a).settled x hOld).changed hChanged ?_).mono
      intro e he _
      simpa using hNone e he

/-- The other lines of the scheduler. -/
theorem Moving.command (h : Moving net) (hUnlocked : Unlocked capacity route used net) {a : A}
    {instruction : Text} {timer : Int} {nodes : Table nodeCallbacks} {dial : Dial}
    (hUndisturbed : Undisturbed net (.erlang a instruction timer nodes dial))
    (hOther : ∀ token tokens, parseErlang instruction ≠ .jobRequest token tokens) :
    Moving (netStep route net (.erlang a instruction timer nodes dial)) := by
  -- an answer to the scheduler changes nothing
  have hTold : ∀ out, (∀ w : Wires A, w.performAll route a out = w) →
      Moving (net.actClient route a ((net.agents a).client, out)) := by
    intro out hOut
    refine moving_actClient route _ ?_ ?_ fun x _ => ?_
    · rw [hOut]
      exact h.flowing
    · rw [hOut]
      exact (h.pursues a).frame (h.pursues a).reaches
    · rw [hOut]
      exact h.pursues x
  cases hParse : parseErlang instruction with
  | jobRequest token tokens => exact absurd hParse (hOther token tokens)
  | jobRelease jobId =>
      cases hFind : (net.agents a).client.findJob (atoi jobId) with
      | none =>
          simp only [netStep, clientStep, hParse, erlangToC, hFind]
          exact hTold [] fun _ => rfl
      | some job =>
          obtain ⟨hJob, hId⟩ := ClientState.findJob_eq_some.mp hFind
          have hTold := hUndisturbed.2 job.jobId (by simp [releasing, causeOf, hParse, hId])
          exact h.finished hUnlocked hParse hFind (hUnlocked.done hJob hTold)
  | jobStatus jobId =>
      simp only [netStep, clientStep, hParse, erlangToC]
      split
      · exact hTold _ fun _ => performAll_cToErlang ..
      · split
        · exact hTold _ fun _ => performAll_cToErlang ..
        · exact hTold _ fun _ => performAll_cToErlang ..
  | getNodes =>
      simp only [netStep, clientStep, hParse, erlangToC]
      exact hTold _ fun _ => rfl
  | ignored =>
      simp only [netStep, clientStep, hParse, erlangToC]
      exact hTold [] fun _ => rfl

/-- `erlang_to_C`. -/
theorem Moving.erlang (h : Moving net) (hUnlocked : Unlocked capacity route used net) {a : A}
    {instruction : Text} {timer : Int} {nodes : Table nodeCallbacks} {dial : Dial}
    (hEnabled : Enabled net (.erlang a instruction timer nodes dial))
    (hUndisturbed : Undisturbed net (.erlang a instruction timer nodes dial))
    (hConnected : connects dial = true)
    (hScheduler : FromScheduler capacity route (.erlang a instruction timer nodes dial))
    (hFresh : ∀ x ∈ requested (.erlang a instruction timer nodes dial), x ∉ used) :
    Moving (netStep route net (.erlang a instruction timer nodes dial)) := by
  obtain ⟨d, rfl⟩ := connects_iff.mp hConnected
  by_cases hRequest : ∃ token tokens, parseErlang instruction = .jobRequest token tokens
  · obtain ⟨token, tokens, hParse⟩ := hRequest
    obtain ⟨jobId, picks, hInt, rfl, -⟩ := hScheduler token tokens hParse
    have hRequested : requested (.erlang a (jobRequestFormat jobId picks) timer nodes
        (.connected d)) = some (a, jobId) := by
      simp [requested, causeOf, parseErlang_jobRequestFormat hInt, Cause.requested,
        atoi_itoa hInt]
    exact h.request hUnlocked hInt (hFresh _ hRequested) hEnabled
  · exact h.command hUnlocked hUndisturbed
      fun token tokens hParse => hRequest ⟨token, tokens, hParse⟩

/-- **One step.**  Nothing stands still after it. -/
theorem Moving.step (h : Moving net) (hUnlocked : Unlocked capacity route used net)
    {e : NetEvent A} (hEnabled : Enabled net e) (hUndisturbed : Undisturbed net e)
    (hConnected : Connected e) (hScheduler : FromScheduler capacity route e)
    (hFresh : ∀ x ∈ requested e, x ∉ used) : Moving (netStep route net e) := by
  cases e with
  | erlang a instruction timer nodes dial =>
      exact h.erlang hUnlocked hEnabled hUndisturbed hConnected hScheduler hFresh
  | sweep a now =>
      have hNone : (net.agents a).client.jobs.filter (expired now) = [] := by
        rw [List.filter_eq_nil_iff]
        intro job hJob
        simp [hUndisturbed job hJob]
      have hIdle : netStep route net (.sweep a now) = net := by
        simp only [netStep, clientStep, checkOurjobTimeouts, hNone, List.map_nil, List.take_nil,
          timeOut]
        exact actClient_idle rfl
      rw [hIdle]
      exact h
  | accept i fd addr => exact h.accept hEnabled
  | writable i => exact h.writable hUnlocked hEnabled
  | line i side now dial names =>
      cases side with
      | client =>
          obtain ⟨d, rfl⟩ := connects_iff.mp hConnected
          exact h.lineClient hUnlocked hEnabled
      | server => exact h.lineServer hUnlocked hEnabled
  | disconnect i side names =>
      cases side with
      | client => exact absurd hEnabled hUnlocked.not_disconnect_client
      | server => exact h.disconnectServer hUnlocked hEnabled
  | fail i keepServer keepClient => exact h.fail hUnlocked hUndisturbed

/-- Nothing disturbs the step, and what it dials answers. -/
def Smooth (net : Net A) (e : NetEvent A) : Prop :=
  Enabled net e ∧ Undisturbed net e ∧ Connected e

instance (net : Net A) (e : NetEvent A) : Decidable (Smooth net e) :=
  inferInstanceAs (Decidable (Enabled net e ∧ Undisturbed net e ∧ Connected e))

/-- Both invariants hold after every smooth run in which no job id is requested twice
at one agent. -/
theorem moving_run {es : List (NetEvent A)}
    (hMeets : Meets (netStep route) Smooth (Net.init capacity) es)
    (hScheduler : ∀ e ∈ es, FromScheduler capacity route e)
    (hUnique : (es.filterMap requested).Nodup) :
    Unlocked capacity route (es.filterMap requested)
        (run (netStep route) (Net.init capacity) es) ∧
      Moving (run (netStep route) (Net.init capacity) es) := by
  refine run_invariant_history
    (fun past net => (past.filterMap requested).Nodup →
      Unlocked capacity route (past.filterMap requested) net ∧ Moving net)
    ?_ (fun _ => ⟨unlocked_init capacity route, moving_init capacity⟩)
    (hMeets.and (meets_of_forall hScheduler)) hUnique
  intro past net e hPast hOk hNodup
  obtain ⟨⟨hEnabled, hUndisturbed, hConnected⟩, hLine⟩ := hOk
  have hLast : [e].filterMap requested = (requested e).toList := by
    cases hSome : requested e <;> simp [hSome]
  rw [List.filterMap_append, hLast] at hNodup ⊢
  rw [List.nodup_append] at hNodup
  obtain ⟨hUnlocked, hMoving⟩ := hPast hNodup.1
  have hFresh : ∀ x ∈ requested e, x ∉ past.filterMap requested := by
    intro x hx hUsed
    exact hNodup.2.2 x hUsed x (by simpa using hx) rfl
  exact ⟨hUnlocked.step hEnabled hUndisturbed hLine hFresh,
    hMoving.step hUnlocked hEnabled hUndisturbed hConnected hLine hFresh⟩

end ResourceAgent.Ports.Momentum
