import ResourceAgent.Ports.Network

/-!
# What requester and provider know about one connection

The invariant of the network, in four parts:

* `Wired` — descriptors lead to the right end of the right connection, and two
  accepted connections of one agent have different peers;
* `Flow` — what can be on its way through a connection, given what it has been
  used for: the RESERVE of its request, then GRANTED, then RELEASE once the
  client has hung up;
* `Asks` — every index entry and every held grant of a client leads to an open
  connection made for that job;
* `Serves` — every queued request and every record of a server leads to an open
  connection on which that request was read, and as long as the requester is
  there the record is exact.

Each part names what it reads from the wires, so most steps preserve most parts
by `Asks.frame` and `Serves.frame`.
-/

namespace ResourceAgent.Ports.NetInvariant

open ResourceAgent.Ports.HashTable
open ResourceAgent.Ports.Records
open ResourceAgent.Ports.Wire
open ResourceAgent.Ports.Client
open ResourceAgent.Ports.Reservation
open ResourceAgent.Ports.Network
open ResourceAgent.Verified.CText
open ResourceAgent.Verified.Runs

variable {A : Type}

/-! ## The invariant -/

/-- A destination whose type and amount survive the trip. -/
def WellFormed (req : PendingResource) : Prop :=
  IsTypeName req.type ∧ IsInt req.amount

/-- The client end of connection `i` is open. -/
def ClientOpen (w : Wires A) (i : Nat) (c : Conn A) : Prop :=
  w.files c.client c.clientFd = some (i, .client)

structure Wired (w : Wires A) : Prop where
  client : ∀ {a fd i}, w.files a fd = some (i, .client) →
    ∃ c, w.conns[i]? = some c ∧ c.client = a ∧ c.clientFd = fd
  server : ∀ {b fd i}, w.files b fd = some (i, .server) →
    ∃ c addr, w.conns[i]? = some c ∧ c.server = b ∧ c.serverEnd = some (fd, addr)
  port : ∀ {i : Nat} {c : Conn A} {fd addr}, w.conns[i]? = some c →
    c.serverEnd = some (fd, addr) → addr.2 ≠ 0
  peers : ∀ {b fd fd'} {i j : Nat} {c d : Conn A} {addr}, w.files b fd = some (i, .server) →
    w.files b fd' = some (j, .server) → w.conns[i]? = some c → w.conns[j]? = some d →
    c.serverEnd = some (fd, addr) → d.serverEnd = some (fd', addr) → i = j

structure Flow (w : Wires A) (i : Nat) (c : Conn A) : Prop where
  job : IsInt c.jobId
  req : WellFormed c.req
  toServer : c.toServer = [] ∨
    (c.toServer = [reserveLine c.jobId c.req.type c.req.amount] ∧ c.received = none ∧
      c.armed = false) ∨
    ((∃ line, c.toServer = [line] ∧ parseRemote line = .release) ∧ ¬ ClientOpen w i c)
  armed : c.armed = true → c.received = none ∧ c.toServer = []
  received : ∀ {r rq}, c.received = some (r, rq) →
    r = Resource.ofName c.req.type ∧ rq.jobId = c.jobId ∧ rq.amountRequested = c.req.amount ∧
      ∃ addr, c.serverEnd = some (rq.originSocket, addr)
  served : ∀ {x}, c.served = some x → c.received = some x
  toClient : c.toClient = [] ∨
    (c.toClient = [grantedLine c.jobId] ∧ c.served.isSome = true ∧
      (ClientOpen w i c → c.broken = false))
  accepted : ClientOpen w i c → c.broken = false → ∀ {fd addr}, c.serverEnd = some (fd, addr) →
    w.files c.server fd = some (i, .server)

/-- The client side of agent `a`. -/
structure Asks (w : Wires A) (a : A) (s : ClientState) : Prop where
  entry : ∀ e ∈ s.entries, ∃ i c, w.files a e.fd = some (i, .client) ∧ w.conns[i]? = some c ∧
    ∃ job ∈ s.jobs, job.addr = e.job ∧ job.jobId = c.jobId ∧ job.nextReq.head? = some c.req
  held : ∀ job ∈ s.jobs, ∀ g ∈ job.grantedReqs, ∃ i c, w.files a g.providerFd = some (i, .client) ∧
    w.conns[i]? = some c ∧ c.jobId = job.jobId ∧ c.served.isSome = true
  apart : ∀ job ∈ s.jobs, ∀ g ∈ job.grantedReqs, ∀ e ∈ s.entries, e.fd ≠ g.providerFd
  reqs : ∀ job ∈ s.jobs, ∀ req ∈ job.nextReq ++ job.grantedReqs, WellFormed req

/-- The requester still has the connection. -/
def Live (w : Wires A) (i : Nat) (c : Conn A) : Prop :=
  ClientOpen w i c ∧ c.broken = false

/-- The record is that of the request served on the connection, and of nothing
else. -/
def Matches (c : Conn A) (e : ReceivedJob) : Prop :=
  ∃ r rq addr, c.served = some (r, rq) ∧ c.serverEnd = some (rq.originSocket, addr) ∧
    e.id = rq.jobId ∧ e.originalSocket = rq.originSocket ∧ (e.ip, e.port) = addr ∧
    ∀ r', e.granted r' = if r' = r then rq.amountRequested else 0

/-- The server side of agent `b`, with the requests not granted yet and
`table_nodejobs`. -/
structure Serves (w : Wires A) (b : A) (waiting : List (Resource × Request))
    (t : Table jobCallbacks) : Prop where
  nodup : waiting.Nodup
  waiting : ∀ {r rq}, (r, rq) ∈ waiting → ∃ i c, w.files b rq.originSocket = some (i, .server) ∧
    w.conns[i]? = some c ∧ c.received = some (r, rq) ∧ c.served = none
  table : ∀ e ∈ t.toList, ∃ i c, w.files b e.originalSocket = some (i, .server) ∧
    w.conns[i]? = some c ∧ c.served.isSome = true ∧ (Matches c e ∨ (e.ip, e.port) = (0, 0))
  live : ∀ {fd i c}, w.files b fd = some (i, .server) → w.conns[i]? = some c →
    c.served.isSome = true → Live w i c → ∃ e ∈ t.toList, Matches c e

/-- The invariant of the wires with respect to the tables of all agents. -/
structure Coherent (w : Wires A) (clients : A → ClientState)
    (servers : A → List (Resource × Request) × Table jobCallbacks) : Prop where
  wired : Wired w
  flow : ∀ {i : Nat} {c : Conn A}, w.conns[i]? = some c → Flow w i c
  asks : ∀ a, Asks w a (clients a)
  serves : ∀ b, Serves w b (servers b).1 (servers b).2

/-! ## Frames -/

section

variable {w w' : Wires A}

/-- A descriptor some entry or some grant of the client refers to. -/
def Uses (s : ClientState) (fd : Int) : Prop :=
  (∃ e ∈ s.entries, e.fd = fd) ∨ ∃ job ∈ s.jobs, ∃ g ∈ job.grantedReqs, g.providerFd = fd

/-- Connections keep their request, and what was served stays served. -/
def Kept (w w' : Wires A) : Prop :=
  ∀ {i : Nat} {c : Conn A}, w.conns[i]? = some c → ∃ c', w'.conns[i]? = some c' ∧
    c'.jobId = c.jobId ∧ c'.req = c.req ∧ (c.served.isSome = true → c'.served.isSome = true)

theorem Asks.frame {a : A} {s : ClientState} (h : Asks w a s) (hKept : Kept w w')
    (hFiles : ∀ fd i, Uses s fd → w.files a fd = some (i, .client) →
      w'.files a fd = some (i, .client)) : Asks w' a s where
  entry e he := by
    obtain ⟨i, c, hFile, hConn, job, hJob, hAddr, hId, hHead⟩ := h.entry e he
    obtain ⟨c', hConn', hId', hReq', -⟩ := hKept hConn
    refine ⟨i, c', hFiles _ _ (.inl ⟨e, he, rfl⟩) hFile, hConn', job, hJob, hAddr, ?_, ?_⟩
    · rw [hId, hId']
    · rw [hHead, hReq']
  held job hJob g hg := by
    obtain ⟨i, c, hFile, hConn, hId, hServed⟩ := h.held job hJob g hg
    obtain ⟨c', hConn', hId', -, hServed'⟩ := hKept hConn
    exact ⟨i, c', hFiles _ _ (.inr ⟨job, hJob, g, hg, rfl⟩) hFile, hConn', hId'.trans hId,
      hServed' hServed⟩
  apart := h.apart
  reqs := h.reqs

theorem Matches.congr {c c' : Conn A} {e : ReceivedJob} (h : Matches c e)
    (hServed : c'.served = c.served) (hEnd : c'.serverEnd = c.serverEnd) : Matches c' e := by
  obtain ⟨r, rq, addr, hSome, hServer, hRest⟩ := h
  exact ⟨r, rq, addr, hServed.trans hSome, hEnd.trans hServer, hRest⟩

/-- A descriptor some queued request or some record of the server refers to. -/
def Refers (waiting : List (Resource × Request)) (t : Table jobCallbacks) (fd : Int) : Prop :=
  (∃ x ∈ waiting, x.2.originSocket = fd) ∨ ∃ e ∈ t.toList, e.originalSocket = fd

theorem Serves.frame {b : A} {waiting : List (Resource × Request)} {t : Table jobCallbacks}
    (h : Serves w b waiting t) (hWired : Wired w)
    (hOld : ∀ fd i, w'.files b fd = some (i, .server) → w.files b fd = some (i, .server))
    (hFiles : ∀ fd i, Refers waiting t fd → w.files b fd = some (i, .server) →
      w'.files b fd = some (i, .server))
    (hConns : ∀ {fd i c}, w.files b fd = some (i, .server) → w.conns[i]? = some c →
      ∃ c', w'.conns[i]? = some c' ∧ c'.serverEnd = c.serverEnd ∧ c'.received = c.received ∧
        c'.served = c.served ∧ (Live w' i c' → Live w i c)) : Serves w' b waiting t where
  nodup := h.nodup
  waiting hIn := by
    obtain ⟨i, c, hFile, hConn, hReceived, hServed⟩ := h.waiting hIn
    obtain ⟨c', hConn', -, hReceived', hServed', -⟩ := hConns hFile hConn
    exact ⟨i, c', hFiles _ _ (.inl ⟨_, hIn, rfl⟩) hFile, hConn', hReceived'.trans hReceived,
      hServed'.trans hServed⟩
  table e he := by
    obtain ⟨i, c, hFile, hConn, hServed, hMatch⟩ := h.table e he
    obtain ⟨c', hConn', hEnd', -, hServed', -⟩ := hConns hFile hConn
    refine ⟨i, c', hFiles _ _ (.inr ⟨e, he, rfl⟩) hFile, hConn', by rw [hServed', hServed], ?_⟩
    rcases hMatch with hMatch | hZero
    · exact .inl (hMatch.congr hServed' hEnd')
    · exact .inr hZero
  live {fd i c'} hFile hConn' hServed hLive := by
    have hFile := hOld _ _ hFile
    obtain ⟨c, -, hConn, -⟩ := hWired.server hFile
    obtain ⟨c'', hConn'', hEnd', -, hServed', hLive'⟩ := hConns hFile hConn
    rw [hConn'] at hConn''
    cases hConn''
    obtain ⟨e, he, hMatch⟩ := h.live hFile hConn (hServed' ▸ hServed) (hLive' hLive)
    exact ⟨e, he, hMatch.congr hServed' hEnd'⟩

theorem Flow.frame {i : Nat} {c : Conn A} (h : Flow w i c)
    (hOpen : ClientOpen w' i c → ClientOpen w i c)
    (hServer : Live w' i c → ∀ fd, w.files c.server fd = some (i, .server) →
      w'.files c.server fd = some (i, .server)) : Flow w' i c where
  job := h.job
  req := h.req
  toServer := by
    rcases h.toServer with hNil | hReserve | ⟨hRelease, hClosed⟩
    · exact .inl hNil
    · exact .inr (.inl hReserve)
    · exact .inr (.inr ⟨hRelease, fun hStill => hClosed (hOpen hStill)⟩)
  armed := h.armed
  received := h.received
  served := h.served
  toClient := by
    rcases h.toClient with hNil | ⟨hGranted, hServed, hWhole⟩
    · exact .inl hNil
    · exact .inr ⟨hGranted, hServed, fun hStill => hWhole (hOpen hStill)⟩
  accepted hStill hBroken _ _ hEnd :=
    hServer ⟨hStill, hBroken⟩ _ (h.accepted (hOpen hStill) hBroken hEnd)

end

section

variable {w : Wires A} {i : Nat} {c : Conn A} {fd : Int}

theorem Wired.at_client (h : Wired w) {a : A} (hFile : w.files a fd = some (i, .client))
    (hConn : w.conns[i]? = some c) : c.client = a ∧ c.clientFd = fd := by
  obtain ⟨d, hConn', hRest⟩ := h.client hFile
  rw [hConn] at hConn'
  cases hConn'
  exact hRest

theorem Wired.at_server (h : Wired w) {b : A} (hFile : w.files b fd = some (i, .server))
    (hConn : w.conns[i]? = some c) : c.server = b ∧ ∃ addr, c.serverEnd = some (fd, addr) := by
  obtain ⟨d, addr, hConn', hServer, hEnd⟩ := h.server hFile
  rw [hConn] at hConn'
  cases hConn'
  exact ⟨hServer, addr, hEnd⟩

end

/-! ## Changing one connection -/

/-- The two ends, the peer and the request are the same. -/
structure Static (c c' : Conn A) : Prop where
  client : c'.client = c.client
  clientFd : c'.clientFd = c.clientFd
  server : c'.server = c.server
  jobId : c'.jobId = c.jobId
  req : c'.req = c.req
  serverEnd : c'.serverEnd = c.serverEnd

/-- Moreover, nothing was received or served in between. -/
structure Quiet (c c' : Conn A) : Prop extends Static c c' where
  received : c'.received = c.received
  served : c'.served = c.served
  broken : c.broken = true → c'.broken = true

theorem Static.refl (c : Conn A) : Static c c := ⟨rfl, rfl, rfl, rfl, rfl, rfl⟩

theorem Quiet.refl (c : Conn A) : Quiet c c := ⟨.refl c, rfl, rfl, id⟩

theorem push_quiet (side : Side) (line : Text) (c : Conn A) : Quiet c (c.push side line) := by
  unfold Conn.push
  split
  · exact .refl c
  · cases side <;> exact ⟨⟨rfl, rfl, rfl, rfl, rfl, rfl⟩, rfl, rfl, id⟩

theorem Static.clientOpen {w : Wires A} {i : Nat} {c c' : Conn A} (h : Static c c') :
    ClientOpen w i c' ↔ ClientOpen w i c := by
  rw [ClientOpen, ClientOpen, h.client, h.clientFd]

theorem Quiet.live {w : Wires A} {i : Nat} {c c' : Conn A} (h : Quiet c c')
    (hLive : Live w i c') : Live w i c := by
  refine ⟨h.clientOpen.mp hLive.1, ?_⟩
  cases hBroken : c.broken with
  | false => rfl
  | true =>
      have hLost := h.broken hBroken
      rw [hLive.2] at hLost
      cases hLost

section

variable {w : Wires A} {i : Nat} {f : Conn A → Conn A}

theorem conns_modify (w : Wires A) (i j : Nat) (f : Conn A → Conn A) :
    (w.modify i f).conns[j]? = w.conns[j]?.map fun c => if i = j then f c else c := by
  simp only [Wires.modify, List.getElem?_modify]
  rfl

theorem conns_modify_self {c : Conn A} (h : w.conns[i]? = some c) :
    (w.modify i f).conns[i]? = some (f c) := by
  rw [conns_modify, h, Option.map_some, if_pos rfl]

theorem conns_modify_ne {j : Nat} (h : i ≠ j) : (w.modify i f).conns[j]? = w.conns[j]? := by
  rw [conns_modify]
  simp [h]

/-- What holds between a connection and its change holds between all
connections before and after. -/
theorem modify_forward {R : Conn A → Conn A → Prop} (hRefl : ∀ c, R c c)
    (hf : ∀ c, w.conns[i]? = some c → R c (f c)) {j : Nat} {c : Conn A}
    (h : w.conns[j]? = some c) : ∃ c', (w.modify i f).conns[j]? = some c' ∧ R c c' := by
  by_cases hSame : i = j
  · subst hSame
    exact ⟨f c, conns_modify_self h, hf c h⟩
  · exact ⟨c, (conns_modify_ne hSame).trans h, hRefl c⟩

theorem modify_backward {R : Conn A → Conn A → Prop} (hRefl : ∀ c, R c c)
    (hf : ∀ c, w.conns[i]? = some c → R c (f c)) {j : Nat} {c' : Conn A}
    (h : (w.modify i f).conns[j]? = some c') : ∃ c, w.conns[j]? = some c ∧ R c c' := by
  cases hConn : w.conns[j]? with
  | none =>
      rw [conns_modify, hConn, Option.map_none] at h
      cases h
  | some c =>
      obtain ⟨c'', hConn'', hR⟩ := modify_forward hRefl hf hConn
      rw [h] at hConn''
      cases hConn''
      exact ⟨c, rfl, hR⟩

theorem Wired.modify (h : Wired w) (hf : ∀ c, w.conns[i]? = some c → Static c (f c)) :
    Wired (w.modify i f) where
  client hFile := by
    obtain ⟨c, hConn, hClient, hFd⟩ := h.client hFile
    obtain ⟨c', hConn', hStatic⟩ := modify_forward Static.refl hf hConn
    exact ⟨c', hConn', hStatic.client.trans hClient, hStatic.clientFd.trans hFd⟩
  server hFile := by
    obtain ⟨c, addr, hConn, hServer, hEnd⟩ := h.server hFile
    obtain ⟨c', hConn', hStatic⟩ := modify_forward Static.refl hf hConn
    exact ⟨c', addr, hConn', hStatic.server.trans hServer, hStatic.serverEnd.trans hEnd⟩
  port hConn hEnd := by
    obtain ⟨c, hConn, hStatic⟩ := modify_backward Static.refl hf hConn
    exact h.port hConn (hStatic.serverEnd.symm.trans hEnd)
  peers hFile hFile' hConn hConn' hEnd hEnd' := by
    obtain ⟨c, hConn, hStatic⟩ := modify_backward Static.refl hf hConn
    obtain ⟨d, hConn', hStatic'⟩ := modify_backward Static.refl hf hConn'
    exact h.peers hFile hFile' hConn hConn' (hStatic.serverEnd.symm.trans hEnd)
      (hStatic'.serverEnd.symm.trans hEnd')

theorem flow_modify (h : ∀ {j : Nat} {c : Conn A}, w.conns[j]? = some c → Flow w j c)
    (hf : ∀ c, w.conns[i]? = some c → Flow w i (f c)) {j : Nat} {c : Conn A}
    (hConn : (w.modify i f).conns[j]? = some c) : Flow (w.modify i f) j c := by
  have hFlow : Flow w j c := by
    by_cases hSame : i = j
    · subst hSame
      obtain ⟨d, hOld, -⟩ := modify_backward (R := fun _ _ => True) (fun _ => trivial)
        (fun _ _ => trivial) hConn
      rw [conns_modify_self hOld] at hConn
      cases hConn
      exact hf d hOld
    · rw [conns_modify_ne hSame] at hConn
      exact h hConn
  exact hFlow.frame id fun _ _ => id

/-- A change of a connection does not concern the servers it does not lead to. -/
theorem Serves.elsewhere {b : A} {waiting : List (Resource × Request)} {t : Table jobCallbacks}
    (h : Serves w b waiting t) (hWired : Wired w) {c : Conn A} (hConn : w.conns[i]? = some c)
    (hOther : b ≠ c.server) : Serves (w.modify i f) b waiting t := by
  refine h.frame hWired (fun _ _ => id) (fun _ _ _ => id) ?_
  intro fd j d hFile hConn'
  refine ⟨d, (conns_modify_ne ?_).trans hConn', rfl, rfl, rfl, id⟩
  rintro rfl
  exact hOther (hWired.at_server hFile hConn).1.symm

/-- A quiet change of one connection. -/
theorem Coherent.modify {clients : A → ClientState}
    {servers : A → List (Resource × Request) × Table jobCallbacks}
    (h : Coherent w clients servers) (hf : ∀ c, w.conns[i]? = some c → Quiet c (f c))
    (hFlow : ∀ c, w.conns[i]? = some c → Flow w i (f c)) :
    Coherent (w.modify i f) clients servers where
  wired := h.wired.modify fun c hc => (hf c hc).toStatic
  flow := flow_modify h.flow hFlow
  asks a := by
    refine (h.asks a).frame ?_ fun _ _ _ => id
    intro j c hConn
    obtain ⟨c', hConn', hQuiet⟩ := modify_forward Quiet.refl hf hConn
    exact ⟨c', hConn', hQuiet.jobId, hQuiet.req, fun hServed => hQuiet.served ▸ hServed⟩
  serves b := by
    refine (h.serves b).frame h.wired (fun _ _ => id) (fun _ _ _ => id) ?_
    intro fd j c _ hConn
    obtain ⟨c', hConn', hQuiet⟩ := modify_forward Quiet.refl hf hConn
    exact ⟨c', hConn', hQuiet.serverEnd, hQuiet.received, hQuiet.served, hQuiet.live⟩

end

/-! ## Closing and opening descriptors -/

section

variable [DecidableEq A] {w : Wires A} {clients : A → ClientState}
  {servers : A → List (Resource × Request) × Table jobCallbacks}

theorem files_close {a a' : A} {fd fd' : Int} {x : Nat × Side} :
    (w.setFile a fd none).files a' fd' = some x ↔
      w.files a' fd' = some x ∧ ¬ (a' = a ∧ fd' = fd) := by
  by_cases hSame : a' = a ∧ fd' = fd
  · simp [Wires.setFile, hSame]
  · simp [Wires.setFile, hSame]

theorem Wired.close (h : Wired w) (a : A) (fd : Int) : Wired (w.setFile a fd none) where
  client hFile := h.client (files_close.mp hFile).1
  server hFile := h.server (files_close.mp hFile).1
  port := h.port
  peers hFile hFile' := h.peers (files_close.mp hFile).1 (files_close.mp hFile').1

/-- Closing a descriptor that is no server end and that the client side does not
need. -/
theorem Coherent.closeClient (h : Coherent w clients servers) {a : A} {fd : Int}
    (hFile : ∀ i, w.files a fd ≠ some (i, .server)) (hUnused : ¬ Uses (clients a) fd) :
    Coherent (w.setFile a fd none) clients servers := by
  have hServer : ∀ {b fd' i}, w.files b fd' = some (i, .server) →
      (w.setFile a fd none).files b fd' = some (i, .server) := by
    intro b fd' i hOpen
    refine files_close.mpr ⟨hOpen, ?_⟩
    rintro ⟨rfl, rfl⟩
    exact hFile i hOpen
  have hClient : ∀ {i : Nat} {c : Conn A}, ClientOpen (w.setFile a fd none) i c →
      ClientOpen w i c := fun hOpen => (files_close.mp hOpen).1
  refine ⟨h.wired.close a fd, ?_, ?_, ?_⟩
  · intro i c hConn
    exact (h.flow hConn).frame hClient fun _ _ => hServer
  · intro x
    refine (h.asks x).frame (fun hConn => ⟨_, hConn, rfl, rfl, id⟩) ?_
    intro fd' i hUses hOpen
    refine files_close.mpr ⟨hOpen, ?_⟩
    rintro ⟨rfl, rfl⟩
    exact hUnused hUses
  · intro b
    refine (h.serves b).frame h.wired (fun _ _ hOpen => (files_close.mp hOpen).1)
      (fun _ _ _ => hServer) fun _ hConn => ⟨_, hConn, rfl, rfl, rfl, ?_⟩
    exact fun hLive => ⟨hClient hLive.1, hLive.2⟩

/-- Closing a server end whose requester is gone and that the server side does
not refer to any more. -/
theorem Coherent.closeServer (h : Coherent w clients servers) {b : A} {fd : Int} {i : Nat}
    {c : Conn A} (hFile : w.files b fd = some (i, .server)) (hConn : w.conns[i]? = some c)
    (hDead : ¬ Live w i c) (hUnused : ¬ Refers (servers b).1 (servers b).2 fd) :
    Coherent (w.setFile b fd none) clients servers := by
  have hClient : ∀ {i : Nat} {c : Conn A}, ClientOpen (w.setFile b fd none) i c →
      ClientOpen w i c := fun hOpen => (files_close.mp hOpen).1
  refine ⟨h.wired.close b fd, ?_, ?_, ?_⟩
  · intro j d hConn'
    refine (h.flow hConn').frame hClient ?_
    intro hLive fd' hOpen
    refine files_close.mpr ⟨hOpen, ?_⟩
    rintro ⟨hSame, rfl⟩
    rw [hSame, hFile] at hOpen
    cases hOpen
    obtain rfl : d = c := Option.some.inj (hConn'.symm.trans hConn)
    exact hDead ⟨hClient hLive.1, hLive.2⟩
  · intro x
    refine (h.asks x).frame (fun hConn => ⟨_, hConn, rfl, rfl, id⟩) ?_
    intro fd' j _ hOpen
    refine files_close.mpr ⟨hOpen, ?_⟩
    rintro ⟨rfl, rfl⟩
    rw [hFile] at hOpen
    cases hOpen
  · intro x
    refine (h.serves x).frame h.wired (fun _ _ hOpen => (files_close.mp hOpen).1) ?_
      fun _ hConn => ⟨_, hConn, rfl, rfl, rfl, fun hLive => ⟨hClient hLive.1, hLive.2⟩⟩
    intro fd' j hRefers hOpen
    refine files_close.mpr ⟨hOpen, ?_⟩
    rintro ⟨rfl, rfl⟩
    exact hUnused hRefers

section

variable {route : Text → Int → A} {a : A} {fd : Int} {i : Nat}

theorem perform_send {side : Side} {line : Text} (h : w.files a fd = some (i, side)) :
    w.perform route a (.send fd line) = w.modify i (Conn.push side line) := by
  simp only [Wires.perform, h]

theorem perform_send_closed {line : Text} (h : w.files a fd = none) :
    w.perform route a (.send fd line) = w := by
  simp only [Wires.perform, h]

theorem perform_epollAdd (h : w.files a fd = some (i, .client)) :
    w.perform route a (.epollAdd fd) = w.modify i fun c => { c with armed := true } := by
  simp only [Wires.perform, h]

theorem perform_recorded {r : Resource} {req : Request}
    (h : w.files a req.originSocket = some (i, .server)) :
    w.perform route a (.recorded r req) =
      w.modify i fun c => { c with served := some (r, req) } := by
  simp only [Wires.perform, h]

end

/-- A new connection, and nothing else, is reached through its descriptor. -/
theorem files_connect {route : Text → Int → A} {a a' : A} {fd fd' jobId : Int}
    {req : PendingResource} {x : Nat × Side} (hFree : w.files a fd = none) :
    (w.perform route a (.connect fd jobId req)).files a' fd' = some x ↔
      w.files a' fd' = some x ∨ (a' = a ∧ fd' = fd ∧ x = (w.conns.length, .client)) := by
  by_cases hSame : a' = a ∧ fd' = fd
  · obtain ⟨rfl, rfl⟩ := hSame
    simp [Wires.perform, Wires.setFile, hFree, eq_comm]
  · simp only [Wires.perform, Wires.setFile, hSame, if_false]
    constructor
    · exact .inl
    · rintro (hOpen | ⟨rfl, rfl, -⟩)
      · exact hOpen
      · exact absurd ⟨rfl, rfl⟩ hSame

theorem conns_connect {route : Text → Int → A} {a : A} {fd jobId : Int} {req : PendingResource}
    {i : Nat} {c : Conn A} :
    (w.perform route a (.connect fd jobId req)).conns[i]? = some c ↔
      w.conns[i]? = some c ∨ (i = w.conns.length ∧
        c = .opened a fd (route req.destIp req.destPort) jobId req) := by
  simp only [Wires.perform, Wires.setFile, List.getElem?_append]
  split
  · rename_i hLt
    constructor
    · exact .inl
    · rintro (hConn | ⟨rfl, -⟩)
      · exact hConn
      · exact absurd hLt (Nat.lt_irrefl _)
  · rename_i hGe
    have hNone : w.conns[i]? = none := List.getElem?_eq_none (Nat.not_lt.mp hGe)
    rw [hNone, List.getElem?_singleton]
    by_cases hSame : i = w.conns.length
    · simp [hSame, eq_comm]
    · have hPos : i - w.conns.length ≠ 0 := by omega
      simp [hSame, hPos]

omit [DecidableEq A] in
private theorem getElem?_lt {i : Nat} {c : Conn A} (h : w.conns[i]? = some c) :
    i < w.conns.length :=
  (List.getElem?_eq_some_iff.mp h).1

/-- A new connection, not armed yet. -/
theorem Coherent.connect (h : Coherent w clients servers) (route : Text → Int → A) {a : A}
    {fd jobId : Int} {req : PendingResource} (hFree : w.files a fd = none) (hJob : IsInt jobId)
    (hReq : WellFormed req) :
    Coherent (w.perform route a (.connect fd jobId req)) clients servers := by
  have hKeep : ∀ {x fd' y}, w.files x fd' = some y →
      (w.perform route a (.connect fd jobId req)).files x fd' = some y :=
    fun hOpen => (files_connect hFree).mpr (.inl hOpen)
  have hServer : ∀ {b fd' i}, (w.perform route a (.connect fd jobId req)).files b fd' =
      some (i, .server) → w.files b fd' = some (i, .server) := by
    intro b fd' i hOpen
    rcases (files_connect hFree).mp hOpen with hOpen | ⟨-, -, hNew⟩
    · exact hOpen
    · cases hNew
  -- a connection that was there keeps the state of its client end
  have hClient : ∀ {i : Nat} {c : Conn A}, w.conns[i]? = some c →
      ClientOpen (w.perform route a (.connect fd jobId req)) i c → ClientOpen w i c := by
    intro i c hConn hOpen
    rcases (files_connect hFree).mp hOpen with hOpen | ⟨-, -, hNew⟩
    · exact hOpen
    · cases hNew
      exact absurd (getElem?_lt hConn) (Nat.lt_irrefl _)
  refine ⟨⟨?_, ?_, ?_, ?_⟩, ?_, ?_, ?_⟩
  · intro x fd' i hOpen
    rcases (files_connect hFree).mp hOpen with hOpen | ⟨rfl, rfl, hNew⟩
    · obtain ⟨c, hConn, hRest⟩ := h.wired.client hOpen
      exact ⟨c, conns_connect.mpr (.inl hConn), hRest⟩
    · cases hNew
      exact ⟨_, conns_connect.mpr (.inr ⟨rfl, rfl⟩), rfl, rfl⟩
  · intro b fd' i hOpen
    obtain ⟨c, addr, hConn, hRest⟩ := h.wired.server (hServer hOpen)
    exact ⟨c, addr, conns_connect.mpr (.inl hConn), hRest⟩
  · intro i c fd' addr hConn hEnd
    rcases conns_connect.mp hConn with hConn | ⟨-, rfl⟩
    · exact h.wired.port hConn hEnd
    · cases hEnd
  · intro b fd' fd'' i j c d addr hOpen hOpen' hConn hConn' hEnd hEnd'
    rcases conns_connect.mp hConn with hConn | ⟨-, rfl⟩
    · rcases conns_connect.mp hConn' with hConn' | ⟨-, rfl⟩
      · exact h.wired.peers (hServer hOpen) (hServer hOpen') hConn hConn' hEnd hEnd'
      · cases hEnd'
    · cases hEnd
  · intro i c hConn
    rcases conns_connect.mp hConn with hConn | ⟨rfl, rfl⟩
    · exact (h.flow hConn).frame (hClient hConn) fun _ _ => hKeep
    · refine ⟨hJob, hReq, .inl rfl, ?_, ?_, ?_, .inl rfl, ?_⟩
      · intro hArmed
        cases hArmed
      · intro r rq hReceived
        cases hReceived
      · intro x hServed
        cases hServed
      · intro _ _ fd' addr hEnd
        cases hEnd
  · intro x
    exact (h.asks x).frame (fun hConn => ⟨_, conns_connect.mpr (.inl hConn), rfl, rfl, id⟩)
      fun _ _ _ => hKeep
  · intro b
    exact (h.serves b).frame h.wired (fun _ _ => hServer) (fun _ _ _ => hKeep)
      fun _ hConn => ⟨_, conns_connect.mpr (.inl hConn), rfl, rfl, rfl,
        fun hLive => ⟨hClient hConn hLive.1, hLive.2⟩⟩

theorem performAll_connect {route : Text → Int → A} {a : A} {fd jobId : Int}
    {req : PendingResource} (hFree : w.files a fd = none) :
    w.performAll route a [.connect fd jobId req, .epollAdd fd] =
      (w.perform route a (.connect fd jobId req)).modify w.conns.length
        fun c => { c with armed := true } := by
  show (w.perform route a (.connect fd jobId req)).perform route a (.epollAdd fd) = _
  exact perform_epollAdd ((files_connect hFree).mpr (.inr ⟨rfl, rfl, rfl⟩))

/-- The descriptor of a new connection leads to it. -/
theorem files_performAll_connect {route : Text → Int → A} {a : A} {fd jobId : Int}
    {req : PendingResource} (hFree : w.files a fd = none) :
    (w.performAll route a [.connect fd jobId req, .epollAdd fd]).files a fd =
      some (w.conns.length, .client) := by
  rw [performAll_connect hFree]
  exact (files_connect hFree).mpr (.inr ⟨rfl, rfl, rfl⟩)

theorem conns_performAll_connect {route : Text → Int → A} {a : A} {fd jobId : Int}
    {req : PendingResource} (hFree : w.files a fd = none) :
    (w.performAll route a [.connect fd jobId req, .epollAdd fd]).conns[w.conns.length]? =
      some { Conn.opened a fd (route req.destIp req.destPort) jobId req with armed := true } := by
  rw [performAll_connect hFree]
  exact conns_modify_self (conns_connect.mpr (.inr ⟨rfl, rfl⟩))

/-- `connect` and `epoll_ctl` ADD. -/
theorem Coherent.connectArmed (h : Coherent w clients servers) (route : Text → Int → A) {a : A}
    {fd jobId : Int} {req : PendingResource} (hFree : w.files a fd = none) (hJob : IsInt jobId)
    (hReq : WellFormed req) :
    Coherent (w.performAll route a [.connect fd jobId req, .epollAdd fd]) clients servers := by
  have hNew := h.connect route hFree hJob hReq
  have hConn : (w.perform route a (.connect fd jobId req)).conns[w.conns.length]? =
      some (.opened a fd (route req.destIp req.destPort) jobId req) :=
    conns_connect.mpr (.inr ⟨rfl, rfl⟩)
  rw [performAll_connect hFree]
  refine hNew.modify (fun c _ => ⟨⟨rfl, rfl, rfl, rfl, rfl, rfl⟩, rfl, rfl, id⟩) ?_
  intro c hSame
  rw [hConn] at hSame
  cases hSame
  have hFlow := hNew.flow hConn
  exact ⟨hFlow.job, hFlow.req, .inl rfl, fun _ => ⟨rfl, rfl⟩, hFlow.received, hFlow.served,
    .inl rfl, hFlow.accepted⟩

/-- RELEASE on a held connection, which is then closed. -/
theorem Coherent.release (h : Coherent w clients servers) (route : Text → Int → A) {a : A}
    {fd : Int} {i : Nat} {c : Conn A} (hFile : w.files a fd = some (i, .client))
    (hConn : w.conns[i]? = some c) (hServed : c.served.isSome = true)
    (hUnused : ¬ Uses (clients a) fd) {line : Text} (hLine : parseRemote line = .release) :
    Coherent (w.performAll route a [.send fd line, .epollDel fd, .close fd]) clients servers := by
  have hClosed := h.closeClient (fun j hServer => by rw [hFile] at hServer; cases hServer) hUnused
  -- the line is on its way when nobody is left at the client end
  have hStep : w.performAll route a [.send fd line, .epollDel fd, .close fd] =
      (w.setFile a fd none).modify i (Conn.push .client line) := by
    show ((w.perform route a (.send fd line)).setFile a fd none) = _
    rw [perform_send hFile]
    rfl
  obtain ⟨x, hReceived⟩ := Option.isSome_iff_exists.mp hServed
  have hReceived := (h.flow hConn).served hReceived
  obtain ⟨hClient, hFd⟩ := h.wired.at_client hFile hConn
  have hOpen : ClientOpen w i c := by
    rw [ClientOpen, hClient, hFd]
    exact hFile
  have hEmpty : c.toServer = [] := by
    rcases (h.flow hConn).toServer with hNil | ⟨-, hNone, -⟩ | ⟨-, hNot⟩
    · exact hNil
    · rw [hReceived] at hNone
      cases hNone
    · exact absurd hOpen hNot
  have hGone : ¬ ClientOpen (w.setFile a fd none) i c :=
    fun hStill => (files_close.mp hStill).2 ⟨hClient, hFd⟩
  rw [hStep]
  refine hClosed.modify (fun d _ => push_quiet .client line d) ?_
  intro d hSame
  obtain rfl : d = c := Option.some.inj (hSame.symm.trans hConn)
  have hFlow := hClosed.flow hSame
  unfold Conn.push
  split
  · exact hFlow
  · refine ⟨hFlow.job, hFlow.req, .inr (.inr ⟨⟨line, ?_, hLine⟩, hGone⟩), ?_, hFlow.received,
      hFlow.served, hFlow.toClient, hFlow.accepted⟩
    · simp [hEmpty]
    · intro hArmed
      have hNone := (hFlow.armed hArmed).1
      rw [hReceived] at hNone
      cases hNone

/-- A held connection, or one that is closed already. -/
def Releasable (w : Wires A) (a : A) (fd : Int) : Prop :=
  w.files a fd = none ∨ ∃ i c, w.files a fd = some (i, .client) ∧ w.conns[i]? = some c ∧
    c.served.isSome = true

theorem Releasable.release {route : Text → Int → A} {a : A} {fd fd' : Int} {line : Text}
    (h : Releasable w a fd) (h' : Releasable w a fd') :
    Releasable (w.performAll route a [.send fd' line, .epollDel fd', .close fd']) a fd := by
  have hFiles : (w.performAll route a [.send fd' line, .epollDel fd', .close fd']).files a fd =
      if fd = fd' then none else w.files a fd := by
    show ((w.perform route a (.send fd' line)).setFile a fd' none).files a fd = _
    rcases h' with hNone | ⟨i, c, hFile, -⟩
    · rw [perform_send_closed hNone]
      simp [Wires.setFile]
    · rw [perform_send hFile]
      simp [Wires.setFile, Wires.modify]
  by_cases hSame : fd = fd'
  · exact .inl (by rw [hFiles, if_pos hSame])
  · rw [if_neg hSame] at hFiles
    rcases h with hNone | ⟨i, c, hFile, hConn, hServed⟩
    · exact .inl (hFiles.trans hNone)
    · refine .inr ?_
      rcases h' with hNone | ⟨j, d, hFile', -⟩
      · refine ⟨i, c, hFiles.trans hFile, ?_, hServed⟩
        show ((w.perform route a (.send fd' line)).setFile a fd' none).conns[i]? = _
        rw [perform_send_closed hNone]
        exact hConn
      · obtain ⟨c', hConn', hQuiet⟩ := modify_forward (w := w) (i := j) Quiet.refl
          (fun d _ => push_quiet .client line d) hConn
        refine ⟨i, c', hFiles.trans hFile, ?_, hQuiet.served ▸ hServed⟩
        show ((w.perform route a (.send fd' line)).setFile a fd' none).conns[i]? = _
        rw [perform_send hFile']
        exact hConn'

theorem performAll_append (w : Wires A) (route : Text → Int → A) (a : A) (out out' : List Effect) :
    w.performAll route a (out ++ out') = (w.performAll route a out).performAll route a out' :=
  List.foldl_append

/-- `release_resources` closes the descriptors it has kept, and no other. -/
theorem files_releaseAll {route : Text → Int → A} {a x : A} {jobId fd : Int} {y : Nat × Side}
    (gs : List PendingResource) :
    ∀ {w : Wires A},
      (w.performAll route a (gs.flatMap (releaseProvider jobId))).files x fd = some y ↔
        w.files x fd = some y ∧
          ∀ g ∈ gs, 0 ≤ g.providerFd → ¬ (x = a ∧ fd = g.providerFd) := by
  induction gs with
  | nil =>
      intro w
      simp [Wires.performAll]
  | cons g gs ih =>
      intro w
      rw [List.flatMap_cons, performAll_append, ih, List.forall_mem_cons, ← and_assoc]
      refine and_congr_left fun _ => ?_
      unfold releaseProvider
      split
      · rename_i hFd
        have hSent : (w.perform route a (.send g.providerFd
            (releaseLine jobId g.type g.amount))).files = w.files := by
          simp only [Wires.perform]
          split <;> rfl
        show ((w.perform route a (.send g.providerFd
          (releaseLine jobId g.type g.amount))).setFile a g.providerFd none).files x fd = _ ↔ _
        rw [files_close, hSent]
        simp [hFd]
      · rename_i hFd
        simp [Wires.performAll, hFd]

/-- `release_resources` for a job the client has already forgotten. -/
theorem Coherent.releaseAll (route : Text → Int → A) {a : A} {jobId : Int} (hJob : IsInt jobId)
    (gs : List PendingResource) :
    ∀ {w : Wires A}, Coherent w clients servers →
      (∀ g ∈ gs, Releasable w a g.providerFd ∧ ¬ Uses (clients a) g.providerFd ∧ WellFormed g) →
      Coherent (w.performAll route a (gs.flatMap (releaseProvider jobId))) clients servers := by
  induction gs with
  | nil => exact fun h _ => h
  | cons g gs ih =>
      intro w h hAll
      obtain ⟨hHere, hUnused, hForm⟩ := hAll g (by simp)
      have hRest := fun g' (hg' : g' ∈ gs) => hAll g' (List.mem_cons_of_mem _ hg')
      rw [List.flatMap_cons, performAll_append]
      unfold releaseProvider
      split
      · refine ih ?_ fun g' hg' => ⟨(hRest g' hg').1.release hHere, (hRest g' hg').2⟩
        rcases hHere with hNone | ⟨i, c, hFile, hConn, hServed⟩
        · show Coherent ((w.perform route a (.send g.providerFd _)).setFile a g.providerFd none) _ _
          rw [perform_send_closed hNone]
          exact h.closeClient (by simp [hNone]) hUnused
        · exact h.release route hFile hConn hServed hUnused
            (parseRemote_releaseLine hJob hForm.2 hForm.1)
      · exact ih h hRest

end

/-! ## The client's tables change -/

section

variable {w : Wires A} {a : A}

/-- One job and some entries change; the entries that stay are of other jobs. -/
theorem Asks.changed {s s' : ClientState} {addr : Nat} {new : Option LocalJob}
    {dropped : List Int} {added : List FdJobEntry} (h : Asks w a s)
    (hChanged : Changed s s' addr new dropped added)
    (hOld : ∀ e ∈ s.entries, e.fd ∉ dropped → e.job ≠ addr)
    (hAdded : ∀ e ∈ added, ∃ i c, w.files a e.fd = some (i, .client) ∧ w.conns[i]? = some c ∧
      (∃ job, new = some job ∧ job.addr = e.job ∧ job.jobId = c.jobId ∧
        job.nextReq.head? = some c.req) ∧
      ∀ job ∈ s'.jobs, ∀ g ∈ job.grantedReqs, e.fd ≠ g.providerFd)
    (hNew : ∀ job, new = some job → ∀ g ∈ job.grantedReqs,
      (∃ i c, w.files a g.providerFd = some (i, .client) ∧ w.conns[i]? = some c ∧
        c.jobId = job.jobId ∧ c.served.isSome = true) ∧
      ∀ e ∈ s.entries, e.fd ∉ dropped → e.fd ≠ g.providerFd)
    (hReqs : ∀ job, new = some job → ∀ req ∈ job.nextReq ++ job.grantedReqs, WellFormed req) :
    Asks w a s' where
  entry e he := by
    rcases (hChanged.entries e).mp he with he | ⟨he, hKept⟩
    · obtain ⟨i, c, hFile, hConn, ⟨job, hJob, hRest⟩, -⟩ := hAdded e he
      exact ⟨i, c, hFile, hConn, job, (hChanged.jobs job).mpr (.inl hJob), hRest⟩
    · obtain ⟨i, c, hFile, hConn, job, hJob, hAddr, hRest⟩ := h.entry e he
      refine ⟨i, c, hFile, hConn, job, (hChanged.jobs job).mpr (.inr ⟨hJob, ?_⟩), hAddr, hRest⟩
      rw [hAddr]
      exact hOld e he hKept
  held job hJob g hg := by
    rcases (hChanged.jobs job).mp hJob with hJob | ⟨hJob, -⟩
    · exact (hNew job hJob g hg).1
    · exact h.held job hJob g hg
  apart job hJob g hg e he := by
    rcases (hChanged.entries e).mp he with he | ⟨he, hKept⟩
    · obtain ⟨i, c, -, -, -, hApart⟩ := hAdded e he
      exact hApart job hJob g hg
    · rcases (hChanged.jobs job).mp hJob with hJob | ⟨hJob, -⟩
      · exact (hNew job hJob g hg).2 e he hKept
      · exact h.apart job hJob g hg e he
  reqs job hJob := by
    rcases (hChanged.jobs job).mp hJob with hJob | ⟨hJob, -⟩
    · exact hReqs job hJob
    · exact h.reqs job hJob

/-- A job and its entry are forgotten. -/
theorem Asks.forget {s s' : ClientState} {addr : Nat} {fd : Int} (h : Asks w a s)
    (hChanged : Changed s s' addr none [fd] [])
    (hEntry : ∀ e ∈ s.entries, e.job = addr → e.fd = fd) : Asks w a s' := by
  refine h.changed hChanged ?_ (by simp) (by simp) (by simp)
  intro e he hKept hSame
  exact hKept (by simp [hEntry e he hSame])

/-- Only the socket of a job changes. -/
theorem Asks.socket {s s' : ClientState} {job : LocalJob} {fd : Int} {dropped : List Int}
    (h : Asks w a s) (hJob : job ∈ s.jobs)
    (hChanged : Changed s s' job.addr (some { job with originSocket := fd }) dropped [])
    (hNone : ∀ e ∈ s.entries, e.job ≠ job.addr) : Asks w a s' := by
  refine h.changed hChanged (fun e he _ => hNone e he) (by simp) ?_ ?_
  · rintro x ⟨⟩ g hg
    exact ⟨h.held job hJob g hg, fun e he _ => h.apart job hJob g hg e he⟩
  · rintro x ⟨⟩
    exact h.reqs job hJob

/-- The descriptors a client uses are open. -/
theorem Asks.open_of_uses {s : ClientState} (h : Asks w a s) {fd : Int} (hUses : Uses s fd) :
    ∃ i, w.files a fd = some (i, .client) := by
  rcases hUses with ⟨e, he, rfl⟩ | ⟨job, hJob, g, hg, rfl⟩
  · obtain ⟨i, c, hFile, -⟩ := h.entry e he
    exact ⟨i, hFile⟩
  · obtain ⟨i, c, hFile, -⟩ := h.held job hJob g hg
    exact ⟨i, hFile⟩

theorem Asks.not_uses {s : ClientState} (h : Asks w a s) {fd : Int} (hFree : w.files a fd = none) :
    ¬ Uses s fd := by
  intro hUses
  obtain ⟨i, hFile⟩ := h.open_of_uses hUses
  rw [hFree] at hFile
  cases hFile

variable {clients : A → ClientState}
  {servers : A → List (Resource × Request) × Table jobCallbacks}

theorem Coherent.congr {clients' : A → ClientState}
    {servers' : A → List (Resource × Request) × Table jobCallbacks} (h : Coherent w clients servers)
    (hClients : ∀ x, clients' x = clients x) (hServers : ∀ x, servers' x = servers x) :
    Coherent w clients' servers' := by
  rw [funext hClients, funext hServers]
  exact h

variable [DecidableEq A]

/-- Of two changes at one agent, the last counts. -/
theorem overwrite {β : Type} (f : A → β) (x y : β) :
    (fun b => if b = a then y else if b = a then x else f b) =
      fun b => if b = a then y else f b := by
  funext b
  by_cases hSame : b = a
  · simp only [hSame, if_true]
  · simp only [hSame, if_false]

theorem overwrite_self {β : Type} (f : A → β) : (fun b => if b = a then f a else f b) = f := by
  funext b
  by_cases hSame : b = a
  · simp only [hSame, if_true]
  · simp only [hSame, if_false]

theorem Coherent.overwriteClient {s s' : ClientState}
    (h : Coherent w (fun x => if x = a then s' else if x = a then s else clients x) servers) :
    Coherent w (fun x => if x = a then s' else clients x) servers := by
  rw [overwrite] at h
  exact h

theorem Coherent.overwriteServer {s s' : List (Resource × Request) × Table jobCallbacks}
    (h : Coherent w clients (fun x => if x = a then s' else if x = a then s else servers x)) :
    Coherent w clients (fun x => if x = a then s' else servers x) := by
  rw [overwrite] at h
  exact h

/-- The tables of a client stay as they are. -/
theorem Coherent.sameClient (h : Coherent w clients servers) :
    Coherent w (fun x => if x = a then clients a else clients x) servers := by
  rw [overwrite_self]
  exact h

theorem Coherent.setClient (h : Coherent w clients servers) {s : ClientState}
    (hAsks : Asks w a s) : Coherent w (fun x => if x = a then s else clients x) servers := by
  refine ⟨h.wired, h.flow, fun x => ?_, h.serves⟩
  by_cases hSame : x = a
  · simpa [hSame] using hAsks
  · simpa [hSame] using h.asks x

/-- `ask_for_next_resource` for a job without a connection under way. -/
theorem Coherent.ask (h : Coherent w clients servers) (route : Text → Int → A) {job : LocalJob}
    {dial : Dial} (hAddr : (clients a).AddrKeys) (hJob : job ∈ (clients a).jobs)
    (hId : IsInt job.jobId) (hNone : ∀ e ∈ (clients a).entries, e.job ≠ job.addr)
    (hFree : w.Free a dial) :
    Coherent (w.performAll route a (askForNextResource dial (clients a) job).2)
      (fun x => if x = a then (askForNextResource dial (clients a) job).1 else clients x)
      servers := by
  obtain ⟨hChanged, hOut⟩ := askForNextResource_changed hAddr hJob hId dial
  rw [hOut]
  cases hNext : job.nextReq with
  | nil =>
      simp only [asked, hNext] at hChanged ⊢
      exact h.setClient ((h.asks a).socket hJob hChanged hNone)
  | cons req rest =>
      have hReq : WellFormed req := (h.asks a).reqs job hJob req (by simp [hNext])
      cases dial with
      | noSocket =>
          simp only [asked, hNext] at hChanged ⊢
          exact h.setClient ((h.asks a).socket hJob hChanged hNone)
      | connectFails fd =>
          simp only [asked, hNext] at hChanged ⊢
          have hClosed : Coherent (w.performAll route a [.close fd]) clients servers :=
            h.closeClient (fun i hServer => by rw [hFree] at hServer; cases hServer)
              ((h.asks a).not_uses hFree)
          exact hClosed.setClient ((hClosed.asks a).socket hJob hChanged hNone)
      | epollFails fd =>
          simp only [asked, hNext] at hChanged ⊢
          rw [← hNext] at hChanged
          have hFile : (w.perform route a (.connect fd job.jobId req)).files a fd =
              some (w.conns.length, .client) := (files_connect hFree).mpr (.inr ⟨rfl, rfl, rfl⟩)
          have hClosed : Coherent (w.performAll route a [.connect fd job.jobId req, .close fd])
              clients servers :=
            (h.connect route hFree hId hReq).closeClient
              (fun i hServer => by rw [hFile] at hServer; cases hServer)
              ((h.asks a).not_uses hFree)
          exact hClosed.setClient ((hClosed.asks a).socket hJob hChanged hNone)
      | connected fd =>
          simp only [asked, hNext] at hChanged ⊢
          rw [← hNext] at hChanged
          have hArmed := h.connectArmed route hFree hId hReq
          refine hArmed.setClient ((hArmed.asks a).changed hChanged (fun e he _ => hNone e he)
            ?_ ?_ ?_)
          · intro e he
            rw [List.mem_singleton] at he
            subst he
            refine ⟨w.conns.length, _, files_performAll_connect hFree,
              conns_performAll_connect hFree, ⟨_, rfl, rfl, rfl, ?_⟩, ?_⟩
            · simp only [hNext]
              rfl
            · intro x hx g hg hSame
              refine (h.asks a).not_uses hFree (.inr ?_)
              rcases (hChanged.jobs x).mp hx with hx | ⟨hx, -⟩
              · cases hx
                exact ⟨job, hJob, g, hg, hSame.symm⟩
              · exact ⟨x, hx, g, hg, hSame.symm⟩
          · rintro x ⟨⟩ g hg
            exact ⟨(hArmed.asks a).held job hJob g hg,
              fun e he _ => (h.asks a).apart job hJob g hg e he⟩
          · rintro x ⟨⟩
            exact (h.asks a).reqs job hJob

end

end ResourceAgent.Ports.NetInvariant
