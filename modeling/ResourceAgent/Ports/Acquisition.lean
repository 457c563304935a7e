import ResourceAgent.Ports.NetClient
import ResourceAgent.Ports.NetServer

/-!
# Jobs acquire in order

The connections of one job, in the order in which they were opened, ask for types
of increasing rank, and each was answered before the next one was opened
(`Ordered.ascending`).  This is what `ask_for_next_resource` and the GRANTED branch
of `client_to_myserver` achieve together: a job asks for the head of `next_req`
only, and moves on only when the answer is there.

`InOrder` ties the connections of a job to what the job still has to ask for.  It
is kept as long as no job gives up a connection on which it waits.

`used` lists the jobs there have been so far.  A job id is not used twice, so a
connection belongs to the same job for ever.
-/

namespace ResourceAgent.Ports.Acquisition

open ResourceAgent.Ports.HashTable
open ResourceAgent.Ports.Records
open ResourceAgent.Ports.Wire
open ResourceAgent.Ports.Client
open ResourceAgent.Ports.Reservation
open ResourceAgent.Ports.Network
open ResourceAgent.Ports.NetInvariant
open ResourceAgent.Verified.CText

variable {A : Type}

/-! ## The invariant -/

/-- The place of a request in the acquisition order. -/
def rankOf (req : PendingResource) : Nat := (Resource.ofName req.type).rank

section

variable (capacity : A → Resource → Int) (route : Text → Int → A) (used : List (A × Int))

/-- All connections ever made. -/
structure Ordered (w : Wires A) : Prop where
  fits : ∀ {i : Nat} {c : Conn A}, w.conns[i]? = some c →
    c.req.amount ≤ capacity c.server (Resource.ofName c.req.type)
  used : ∀ {i : Nat} {c : Conn A}, w.conns[i]? = some c → (c.client, c.jobId) ∈ used
  waiting : ∀ {i : Nat} {c : Conn A}, w.conns[i]? = some c → c.served = none → ClientOpen w i c
  whole : ∀ {i : Nat} {c : Conn A}, w.conns[i]? = some c → ClientOpen w i c → c.broken = false
  ascending : ∀ {i j : Nat} {c d : Conn A}, i < j → w.conns[i]? = some c →
    w.conns[j]? = some d → c.client = d.client → c.jobId = d.jobId →
    c.served.isSome = true ∧ rankOf c.req < rankOf d.req

/-- Connection `i` of a job of agent `a`: either it was answered and is for a type
below all the job has still to ask for, or the job waits on it. -/
def Placed (w : Wires A) (a : A) (s : ClientState) (job : LocalJob) (i : Nat) (c : Conn A) : Prop :=
  (c.served.isSome = true ∧ ∀ req ∈ job.nextReq, rankOf c.req < rankOf req) ∨
    (job.nextReq.head? = some c.req ∧
      ∃ e ∈ s.entries, e.job = job.addr ∧ w.files a e.fd = some (i, .client))

/-- A job of agent `a`. -/
structure InOrder (w : Wires A) (a : A) (s : ClientState) (job : LocalJob) : Prop where
  ascending : job.nextReq.Pairwise fun req req' => rankOf req < rankOf req'
  fits : ∀ req ∈ job.nextReq,
    req.amount ≤ capacity (route req.destIp req.destPort) (Resource.ofName req.type)
  placed : ∀ {i : Nat} {c : Conn A}, w.conns[i]? = some c → c.client = a →
    c.jobId = job.jobId → Placed w a s job i c
  socket : 0 ≤ job.originSocket →
    (∃ e ∈ s.entries, e.job = job.addr ∧ e.fd = job.originSocket) ∨
      ∃ g ∈ job.grantedReqs, g.providerFd = job.originSocket
  used : (a, job.jobId) ∈ used

/-- The invariant of the wires with respect to the jobs of all agents. -/
structure Acquiring (w : Wires A) (clients : A → ClientState) : Prop where
  conns : Ordered capacity used w
  jobs : ∀ a, ∀ job ∈ (clients a).jobs, InOrder capacity route used w a (clients a) job

end

variable {capacity : A → Resource → Int} {route : Text → Int → A} {used : List (A × Int)}
  {w w' : Wires A} {a : A} {clients : A → ClientState}

theorem Acquiring.mono {used' : List (A × Int)} (h : Acquiring capacity route used w clients)
    (hUsed : ∀ x ∈ used, x ∈ used') : Acquiring capacity route used' w clients where
  conns := ⟨h.conns.fits, fun hConn => hUsed _ (h.conns.used hConn), h.conns.waiting,
    h.conns.whole, h.conns.ascending⟩
  jobs a job hJob :=
    have hOld := h.jobs a job hJob
    ⟨hOld.ascending, hOld.fits, hOld.placed, hOld.socket, hUsed _ hOld.used⟩

/-! ## Frames -/

/-- The request and the client end are the same, and what was served stays
served. -/
structure Alike (c c' : Conn A) : Prop where
  client : c'.client = c.client
  clientFd : c'.clientFd = c.clientFd
  server : c'.server = c.server
  jobId : c'.jobId = c.jobId
  req : c'.req = c.req
  served : c.served.isSome = true → c'.served.isSome = true

theorem Alike.refl (c : Conn A) : Alike c c := ⟨rfl, rfl, rfl, rfl, rfl, id⟩

theorem Alike.trans {c₁ c₂ c₃ : Conn A} (h : Alike c₁ c₂) (h' : Alike c₂ c₃) : Alike c₁ c₃ where
  client := h'.client.trans h.client
  clientFd := h'.clientFd.trans h.clientFd
  server := h'.server.trans h.server
  jobId := h'.jobId.trans h.jobId
  req := h'.req.trans h.req
  served hServed := h'.served (h.served hServed)

theorem Alike.unserved {c c' : Conn A} (h : Alike c c') (hServed : c'.served = none) :
    c.served = none := by
  cases hSome : c.served with
  | none => rfl
  | some x =>
      have hStill := h.served (by rw [hSome]; rfl)
      rw [hServed] at hStill
      cases hStill

theorem alike_of_same {c c' : Conn A} (h : Same c c') : Alike c c' :=
  ⟨h.client, h.clientFd, h.server, h.jobId, h.req, h.served⟩

/-- The entries and the connections of a job are still there. -/
theorem InOrder.frame {s s' : ClientState} {job : LocalJob}
    (h : InOrder capacity route used w a s job)
    (hEntries : ∀ e ∈ s.entries, e.job = job.addr → e ∈ s'.entries ∧
      ∀ i, w.files a e.fd = some (i, .client) → w'.files a e.fd = some (i, .client))
    (hConns : ∀ {i : Nat} {c' : Conn A}, w'.conns[i]? = some c' → c'.client = a →
      c'.jobId = job.jobId → ∃ c, w.conns[i]? = some c ∧ Alike c c') :
    InOrder capacity route used w' a s' job where
  ascending := h.ascending
  fits := h.fits
  placed {i c'} hConn' hClient hId := by
    obtain ⟨c, hConn, hAlike⟩ := hConns hConn' hClient hId
    rcases h.placed hConn (hAlike.client.symm.trans hClient) (hAlike.jobId.symm.trans hId) with
      ⟨hServed, hBelow⟩ | ⟨hHead, e, he, hAddr, hFile⟩
    · refine .inl ⟨hAlike.served hServed, ?_⟩
      rw [hAlike.req]
      exact hBelow
    · refine .inr ⟨?_, e, (hEntries e he hAddr).1, hAddr, (hEntries e he hAddr).2 i hFile⟩
      rw [hHead, hAlike.req]
  socket hSocket := by
    rcases h.socket hSocket with ⟨e, he, hAddr, hFd⟩ | hHeld
    · exact .inl ⟨e, (hEntries e he hAddr).1, hAddr, hFd⟩
    · exact .inr hHeld
  used := h.used

/-- No client end is opened or closed, and no connection fails at an open one. -/
structure Calm (w w' : Wires A) : Prop where
  files : ∀ {a fd i}, w'.files a fd = some (i, .client) ↔ w.files a fd = some (i, .client)
  conns : ∀ {i : Nat} {c' : Conn A}, w'.conns[i]? = some c' →
    ∃ c, w.conns[i]? = some c ∧ Alike c c' ∧ (ClientOpen w i c → c'.broken = c.broken)

theorem Calm.clientOpen (h : Calm w w') {i : Nat} {c c' : Conn A} (hAlike : Alike c c') :
    ClientOpen w' i c' ↔ ClientOpen w i c := by
  rw [ClientOpen, ClientOpen, hAlike.client, hAlike.clientFd, h.files]

theorem Calm.trans {w'' : Wires A} (h : Calm w w') (h' : Calm w' w'') : Calm w w'' where
  files := h'.files.trans h.files
  conns hConn := by
    obtain ⟨c', hConn', hAlike', hBroken'⟩ := h'.conns hConn
    obtain ⟨c, hConn'', hAlike, hBroken⟩ := h.conns hConn'
    refine ⟨c, hConn'', hAlike.trans hAlike', fun hOpen => ?_⟩
    exact (hBroken' ((h.clientOpen hAlike).mpr hOpen)).trans (hBroken hOpen)

theorem calm_of_steady (h : Steady w w') : Calm w w' where
  files := by rw [h.files]
  conns hConn := by
    obtain ⟨c, hConn', hSame⟩ := h.conns hConn
    exact ⟨c, hConn', alike_of_same hSame, fun _ => hSame.broken⟩

/-- One connection changes, its ends do not. -/
theorem calm_modify {i : Nat} {f : Conn A → Conn A}
    (hf : ∀ c, w.conns[i]? = some c → Alike c (f c) ∧
      (ClientOpen w i c → (f c).broken = c.broken)) :
    Calm w (w.modify i f) where
  files := Iff.rfl
  conns {j c'} hConn' := by
    by_cases hSame : i = j
    · subst hSame
      exact modify_backward
        (R := fun c c' => Alike c c' ∧ (ClientOpen w i c → c'.broken = c.broken))
        (fun c => ⟨Alike.refl c, fun _ => rfl⟩) hf hConn'
    · rw [conns_modify_ne hSame] at hConn'
      exact ⟨c', hConn', .refl c', fun _ => rfl⟩

/-- Every connection was there already, client ends are only closed when their
request was answered, and nothing fails at an open one. -/
theorem Ordered.frame (h : Ordered capacity used w)
    (hConns : ∀ {i : Nat} {c' : Conn A}, w'.conns[i]? = some c' → ∃ c, w.conns[i]? = some c ∧
      Alike c c' ∧ (ClientOpen w' i c' → ClientOpen w i c ∧ c'.broken = c.broken) ∧
      (c.served = none → ClientOpen w i c → ClientOpen w' i c')) :
    Ordered capacity used w' where
  fits hConn := by
    obtain ⟨c, hConn', hAlike, -⟩ := hConns hConn
    rw [hAlike.req, hAlike.server]
    exact h.fits hConn'
  used hConn := by
    obtain ⟨c, hConn', hAlike, -⟩ := hConns hConn
    rw [hAlike.client, hAlike.jobId]
    exact h.used hConn'
  waiting hConn hServed := by
    obtain ⟨c, hConn', hAlike, -, hOpen⟩ := hConns hConn
    have hServed := hAlike.unserved hServed
    exact hOpen hServed (h.waiting hConn' hServed)
  whole hConn hOpen := by
    obtain ⟨c, hConn', hAlike, hBroken, -⟩ := hConns hConn
    obtain ⟨hOpen, hSame⟩ := hBroken hOpen
    exact hSame.trans (h.whole hConn' hOpen)
  ascending hLt hConn hConn' hClient hId := by
    obtain ⟨c, hOld, hAlike, -⟩ := hConns hConn
    obtain ⟨d, hOld', hAlike', -⟩ := hConns hConn'
    rw [hAlike.client, hAlike'.client] at hClient
    rw [hAlike.jobId, hAlike'.jobId] at hId
    obtain ⟨hServed, hRank⟩ := h.ascending hLt hOld hOld' hClient hId
    rw [hAlike.req, hAlike'.req]
    exact ⟨hAlike.served hServed, hRank⟩

theorem Ordered.calm (h : Ordered capacity used w) (hCalm : Calm w w') :
    Ordered capacity used w' := by
  refine h.frame ?_
  intro i c' hConn
  obtain ⟨c, hConn', hAlike, hBroken⟩ := hCalm.conns hConn
  have hOpen : ClientOpen w' i c' ↔ ClientOpen w i c := hCalm.clientOpen hAlike
  exact ⟨c, hConn', hAlike, fun hStill => ⟨hOpen.mp hStill, hBroken (hOpen.mp hStill)⟩,
    fun _ => hOpen.mpr⟩

theorem Acquiring.calm (h : Acquiring capacity route used w clients) (hCalm : Calm w w') :
    Acquiring capacity route used w' clients where
  conns := h.conns.calm hCalm
  jobs a job hJob := by
    refine (h.jobs a job hJob).frame (fun e he _ => ⟨he, fun i => hCalm.files.mpr⟩) ?_
    intro i c' hConn _ _
    obtain ⟨c, hConn', hAlike, -⟩ := hCalm.conns hConn
    exact ⟨c, hConn', hAlike⟩

/-! ## Opening and closing descriptors -/

variable [DecidableEq A]

/-- Closing a descriptor that is no client end. -/
theorem calm_close {fd : Int} (hFile : ∀ i, w.files a fd ≠ some (i, .client)) :
    Calm w (w.setFile a fd none) where
  files {x fd' i} := by
    rw [files_close]
    constructor
    · exact And.left
    · intro hOpen
      refine ⟨hOpen, ?_⟩
      rintro ⟨rfl, rfl⟩
      exact hFile i hOpen
  conns hConn := ⟨_, hConn, .refl _, fun _ => rfl⟩

theorem calm_accept {i fd : Nat} {c : Conn A} {addr : Addr} (hConn : w.conns[i]? = some c)
    (hFree : w.files c.server fd = none) : Calm w (w.accept i fd addr) where
  files {x fd' j} := by
    rw [files_accept hConn hFree]
    constructor
    · rintro (hOpen | ⟨-, -, hNew⟩)
      · exact hOpen
      · cases hNew
    · exact .inl
  conns hConn' := by
    rcases conns_accept hConn hConn' with ⟨rfl, rfl⟩ | ⟨-, hOld⟩
    · exact ⟨c, hConn, ⟨rfl, rfl, rfl, rfl, rfl, id⟩, fun _ => rfl⟩
    · exact ⟨_, hOld, .refl _, fun _ => rfl⟩

/-- A new connection of a job whose connections so far were all answered, for a
type above theirs. -/
theorem Ordered.connect (h : Ordered capacity used w) {fd jobId : Int} {req : PendingResource}
    (hFree : w.files a fd = none)
    (hFits : req.amount ≤ capacity (route req.destIp req.destPort) (Resource.ofName req.type))
    (hUsed : (a, jobId) ∈ used)
    (hLast : ∀ {i : Nat} {c : Conn A}, w.conns[i]? = some c → c.client = a → c.jobId = jobId →
      c.served.isSome = true ∧ rankOf c.req < rankOf req) :
    Ordered capacity used (w.perform route a (.connect fd jobId req)) where
  fits hConn := by
    rcases conns_connect.mp hConn with hConn | ⟨-, rfl⟩
    · exact h.fits hConn
    · exact hFits
  used hConn := by
    rcases conns_connect.mp hConn with hConn | ⟨-, rfl⟩
    · exact h.used hConn
    · exact hUsed
  waiting hConn hServed := by
    rcases conns_connect.mp hConn with hConn | ⟨rfl, rfl⟩
    · exact (files_connect hFree).mpr (.inl (h.waiting hConn hServed))
    · exact (files_connect hFree).mpr (.inr ⟨rfl, rfl, rfl⟩)
  whole {i c} hConn hOpen := by
    rcases conns_connect.mp hConn with hConn | ⟨-, rfl⟩
    · rcases (files_connect hFree).mp hOpen with hOpen | ⟨-, -, hNew⟩
      · exact h.whole hConn hOpen
      · have hLt := (List.getElem?_eq_some_iff.mp hConn).1
        rw [Prod.mk.injEq] at hNew
        omega
    · rfl
  ascending {i j c d} hLt hConn hConn' hClient hId := by
    rcases conns_connect.mp hConn' with hConn' | ⟨rfl, rfl⟩
    · have hBound := (List.getElem?_eq_some_iff.mp hConn').1
      rcases conns_connect.mp hConn with hConn | ⟨rfl, -⟩
      · exact h.ascending hLt hConn hConn' hClient hId
      · omega
    · rcases conns_connect.mp hConn with hConn | ⟨rfl, -⟩
      · exact hLast hConn hClient hId
      · omega

/-- The tables of a client stay as they are. -/
theorem Acquiring.sameClient (h : Acquiring capacity route used w clients) :
    Acquiring capacity route used w (fun x => if x = a then clients a else clients x) := by
  rw [overwrite_self]
  exact h

theorem Acquiring.setClient (h : Acquiring capacity route used w clients) {s : ClientState}
    (hJobs : ∀ job ∈ s.jobs, InOrder capacity route used w a s job) :
    Acquiring capacity route used w (fun x => if x = a then s else clients x) where
  conns := h.conns
  jobs x := by
    by_cases hSame : x = a
    · subst hSame
      simpa using hJobs
    · simpa [hSame] using h.jobs x

omit [DecidableEq A] in
/-- A job without a connection under way has only answered ones. -/
theorem InOrder.answered {s : ClientState} {job : LocalJob}
    (h : InOrder capacity route used w a s job) (hNone : ∀ e ∈ s.entries, e.job ≠ job.addr)
    {i : Nat} {c : Conn A} (hConn : w.conns[i]? = some c) (hClient : c.client = a)
    (hId : c.jobId = job.jobId) :
    c.served.isSome = true ∧ ∀ req ∈ job.nextReq, rankOf c.req < rankOf req := by
  rcases h.placed hConn hClient hId with hAnswered | ⟨-, e, he, hAddr, -⟩
  · exact hAnswered
  · exact absurd hAddr (hNone e he)

/-- A job opens a connection for its first request and waits on it. -/
theorem Acquiring.connect (h : Acquiring capacity route used w clients)
    (hOpen : ∀ e ∈ (clients a).entries, ∃ i, w.files a e.fd = some (i, .client))
    {s' : ClientState} {job : LocalJob} {req : PendingResource} {rest : List PendingResource}
    {fd : Int} (hJob : job ∈ (clients a).jobs)
    (hNext : job.nextReq = req :: rest) (hNone : ∀ e ∈ (clients a).entries, e.job ≠ job.addr)
    (hFree : w.files a fd = none)
    (hChanged : Changed (clients a) s' job.addr (some { job with originSocket := fd }) [fd]
      [⟨fd, job.addr⟩]) :
    Acquiring capacity route used (w.perform route a (.connect fd job.jobId req))
      (fun x => if x = a then s' else clients x) := by
  have hOrder := h.jobs a job hJob
  have hEntry : ⟨fd, job.addr⟩ ∈ s'.entries := (hChanged.entries _).mpr (.inl (by simp))
  have hKeep : ∀ {x fd' y}, w.files x fd' = some y →
      (w.perform route a (.connect fd job.jobId req)).files x fd' = some y :=
    fun hOpen => (files_connect hFree).mpr (.inl hOpen)
  refine ⟨?_, ?_⟩
  · refine h.conns.connect hFree (hOrder.fits req (by simp [hNext])) hOrder.used ?_
    intro i c hConn hClient hSame
    obtain ⟨hServed, hBelow⟩ := hOrder.answered hNone hConn hClient hSame
    exact ⟨hServed, hBelow req (by simp [hNext])⟩
  · intro x job' hJob'
    by_cases hAgent : x = a
    · subst hAgent
      simp only [if_true] at hJob' ⊢
      rcases (hChanged.jobs job').mp hJob' with hNew | ⟨hOld, hAddr⟩
      · cases hNew
        refine ⟨hOrder.ascending, hOrder.fits, ?_, fun _ => .inl ⟨_, hEntry, rfl, rfl⟩, hOrder.used⟩
        intro i c hConn hClient hSame
        rcases conns_connect.mp hConn with hConn | ⟨rfl, rfl⟩
        · exact .inl (hOrder.answered hNone hConn hClient hSame)
        · refine .inr ⟨?_, _, hEntry, rfl, (files_connect hFree).mpr (.inr ⟨rfl, rfl, rfl⟩)⟩
          simp only [hNext]
          rfl
      · refine (h.jobs x job' hOld).frame (fun e he _ => ⟨?_, fun i => hKeep⟩) ?_
        · -- entries of other jobs are under other descriptors
          refine (hChanged.entries e).mpr (.inr ⟨he, ?_⟩)
          rw [List.mem_singleton]
          rintro rfl
          obtain ⟨i, hFile⟩ := hOpen e he
          rw [hFree] at hFile
          cases hFile
        · intro i c hConn _ hSame
          rcases conns_connect.mp hConn with hConn | ⟨-, rfl⟩
          · exact ⟨c, hConn, .refl c⟩
          · have hJobs := ClientState.eq_of_jobId hOld hJob hSame.symm
            exact absurd (congrArg LocalJob.addr hJobs) hAddr
    · simp only [hAgent, if_false] at hJob' ⊢
      refine (h.jobs x job' hJob').frame (fun e he _ => ⟨he, fun i => hKeep⟩) ?_
      intro i c hConn hClient _
      rcases conns_connect.mp hConn with hConn | ⟨-, rfl⟩
      · exact ⟨c, hConn, .refl c⟩
      · exact absurd hClient.symm hAgent

/-- `ask_for_next_resource`, unless it gives a new connection up again. -/
theorem Acquiring.ask (h : Acquiring capacity route used w clients)
    (hOpen : ∀ e ∈ (clients a).entries, ∃ i, w.files a e.fd = some (i, .client))
    {job : LocalJob} {dial : Dial} (hAddr : (clients a).AddrKeys) (hJob : job ∈ (clients a).jobs)
    (hId : IsInt job.jobId)
    (hNone : ∀ e ∈ (clients a).entries, e.job ≠ job.addr) (hFree : w.Free a dial)
    (hKeeps : ∀ fd, dial ≠ .epollFails fd) :
    Acquiring capacity route used
      (w.performAll route a (askForNextResource dial (clients a) job).2)
      (fun x => if x = a then (askForNextResource dial (clients a) job).1 else clients x) := by
  obtain ⟨hChanged, hOut⟩ := askForNextResource_changed hAddr hJob hId dial
  cases hNext : job.nextReq with
  | nil =>
      simp only [askForNextResource, hNext, performAll_cToErlang]
      exact h.sameClient
  | cons req rest =>
      cases dial with
      | noSocket =>
          simp only [askForNextResource, hNext]
          exact h.sameClient
      | connectFails fd =>
          simp only [askForNextResource, hNext]
          refine (h.calm (calm_close ?_)).sameClient
          intro i hFile
          rw [hFree] at hFile
          cases hFile
      | epollFails fd => exact absurd rfl (hKeeps fd)
      | connected fd =>
          simp only [asked, hNext] at hChanged hOut
          rw [← hNext] at hChanged
          rw [hOut, performAll_connect hFree]
          exact (h.connect hOpen hJob hNext hNone hFree hChanged).calm
            (calm_modify fun c _ => ⟨⟨rfl, rfl, rfl, rfl, rfl, id⟩, fun _ => rfl⟩)

/-! ## The life of a job -/

/-- JOB_REQUEST with an id that was never used. -/
theorem Acquiring.createJob (h : Acquiring capacity route used w clients)
    (hTidy : Tidy (clients a))
    (hOpen : ∀ e ∈ (clients a).entries, ∃ i, w.files a e.fd = some (i, .client))
    (job : LocalJob) {dial : Dial} (hId : IsInt job.jobId) (hFresh : (a, job.jobId) ∉ used)
    (hNew : job = makeJob (clients a) job.jobId job.nextReq job.timer)
    (hAscending : job.nextReq.Pairwise fun req req' => rankOf req < rankOf req')
    (hFits : ∀ req ∈ job.nextReq,
      req.amount ≤ capacity (route req.destIp req.destPort) (Resource.ofName req.type))
    (hFree : w.Free a dial) (hKeeps : ∀ fd, dial ≠ .epollFails fd) :
    Acquiring capacity route (used ++ [(a, job.jobId)])
      (w.performAll route a (askForNextResource dial ((clients a).insertJob job) job).2)
      (fun x => if x = a then (askForNextResource dial ((clients a).insertJob job) job).1
        else clients x) := by
  have hAbsent : ∀ x ∈ (clients a).jobs, x.jobId ≠ job.jobId := by
    intro x hx hSame
    exact hFresh (hSame ▸ (h.jobs a x hx).used)
  have hInsert := insertJob_changed hTidy hAbsent hNew
  have hSocket : job.originSocket = -1 := by
    rw [hNew]
    rfl
  have hAddr : job.addr = (clients a).brk := by
    rw [hNew]
    rfl
  have hNone : ∀ e ∈ ((clients a).insertJob job).entries, e.job ≠ job.addr := by
    intro e he hSame
    obtain ⟨-, x, hx, hxAddr, -⟩ := hTidy.entries e he
    have := hTidy.allocated x hx
    omega
  have hOld : Acquiring capacity route (used ++ [(a, job.jobId)]) w clients :=
    h.mono fun x hx => List.mem_append_left _ hx
  have hStored := hOld.setClient (a := a) (s := (clients a).insertJob job) ?_
  · have hKeys := hInsert.addrKeys hTidy.addrKeys (by rintro x ⟨⟩; rfl)
    have hAsked := hStored.ask (a := a)
      (by simpa using hOpen)
      (by simpa using hKeys) (by simpa using hInsert.mem_self) hId (by simpa using hNone) hFree
      hKeeps
    simp only [if_true] at hAsked
    rw [overwrite] at hAsked
    exact hAsked
  · intro x hx
    rcases (hInsert.jobs x).mp hx with hx | ⟨hx, -⟩
    · cases hx
      refine ⟨hAscending, hFits, ?_, ?_, by simp⟩
      · intro i c hConn hClient hSame
        have hUsed := h.conns.used hConn
        rw [hClient, hSame] at hUsed
        exact absurd hUsed hFresh
      · intro hNonneg
        omega
    · exact (hOld.jobs a x hx).frame (fun e he _ => ⟨he, fun _ => id⟩)
        fun hConn _ _ => ⟨_, hConn, .refl _⟩

/-- GRANTED on the connection a job waits on. -/
theorem Acquiring.advanceJob (h : Acquiring capacity route used w clients)
    (hTidy : Tidy (clients a))
    (hOpen : ∀ e ∈ (clients a).entries, ∃ i, w.files a e.fd = some (i, .client))
    {job : LocalJob} {dial : Dial} {fd : Int} (now : Int) (hJob : job ∈ (clients a).jobs)
    (hEntry : ⟨fd, job.addr⟩ ∈ (clients a).entries) {i : Nat} {c : Conn A}
    (hFile : w.files a fd = some (i, .client)) (hConn : w.conns[i]? = some c)
    (hServed : c.served.isSome = true) (hFree : w.Free a dial)
    (hKeeps : ∀ fd, dial ≠ .epollFails fd) :
    Acquiring capacity route used
      (w.performAll route a (askForNextResource dial
          (((clients a).writeJob (LocalJob.advance job fd now)).removeEntry fd)
          (LocalJob.advance job fd now)).2)
      (fun x => if x = a then (askForNextResource dial
          (((clients a).writeJob (LocalJob.advance job fd now)).removeEntry fd)
          (LocalJob.advance job fd now)).1
        else clients x) := by
  have hOrder := h.jobs a job hJob
  have hAddr := LocalJob.advance_addr job fd now
  have hId := LocalJob.advance_jobId job fd now
  have hChanged := advance_changed hTidy.addrKeys hJob fd now
  have hSocket : fd = job.originSocket := Tidy.entry_socket hTidy hJob hEntry rfl
  -- the entries that stay are those of other jobs
  have hOther : ∀ e ∈ (clients a).entries, e.fd ∉ [fd] ↔ e.job ≠ job.addr := by
    intro e he
    rw [List.mem_singleton, not_iff_not]
    constructor
    · intro hFd
      rw [ClientState.eq_of_fd he hEntry hFd]
    · intro hSame
      rw [Tidy.entry_socket hTidy hJob he hSame, hSocket]
  obtain ⟨req, rest, hNext⟩ : ∃ req rest, job.nextReq = req :: rest := by
    obtain ⟨-, x, hx, hxAddr, hWaits, -⟩ := hTidy.entries _ hEntry
    rw [hTidy.addrKeys x hx job hJob hxAddr] at hWaits
    exact List.exists_cons_of_ne_nil hWaits
  have hAscending := hOrder.ascending
  rw [hNext, List.pairwise_cons] at hAscending
  have hAdvance : LocalJob.advance job fd now = { job with
      nextReq := rest
      grantedReqs := { req with providerFd := fd } :: job.grantedReqs
      timer := now } := by
    simp only [LocalJob.advance, hNext]
  have hStored := h.setClient (a := a)
    (s := ((clients a).writeJob (LocalJob.advance job fd now)).removeEntry fd) ?_
  · have hKeys := hChanged.addrKeys hTidy.addrKeys (by rintro x ⟨⟩; exact hAddr)
    have hEntries : ∀ e ∈
        (((clients a).writeJob (LocalJob.advance job fd now)).removeEntry fd).entries,
        e ∈ (clients a).entries ∧ e.fd ∉ [fd] := by
      intro e he
      rcases (hChanged.entries e).mp he with hNone | hOld
      · cases hNone
      · exact hOld
    have hInt : IsInt (LocalJob.advance job fd now).jobId := by
      rw [hId]
      exact hTidy.ids job hJob
    have hAsked := hStored.ask (a := a)
      (by simpa using fun e he => hOpen e (hEntries e he).1)
      (by simpa using hKeys) (by simpa using hChanged.mem_self) hInt
      (by simpa [hAddr] using fun e he => (hOther e (hEntries e he).1).mp (hEntries e he).2)
      hFree hKeeps
    simp only [if_true] at hAsked
    rw [overwrite] at hAsked
    exact hAsked
  · intro x hx
    rcases (hChanged.jobs x).mp hx with hx | ⟨hx, hxAddr⟩
    · cases hx
      rw [hAdvance]
      refine ⟨hAscending.2, fun req' hReq' => hOrder.fits req' (by simp [hNext, hReq']), ?_,
        fun _ => .inr ⟨_, List.mem_cons_self, hSocket⟩, hOrder.used⟩
      intro j d hConn' hClient hSame
      rcases hOrder.placed hConn' hClient hSame with ⟨hOld, hBelow⟩ | ⟨hHead, e, he, heAddr, hFile'⟩
      · exact .inl ⟨hOld, fun req' hReq' => hBelow req' (by simp [hNext, hReq'])⟩
      · -- the connection the job waited on is the one that was answered
        rw [Tidy.entry_socket hTidy hJob he heAddr, ← hSocket, hFile] at hFile'
        cases hFile'
        rw [hConn] at hConn'
        cases hConn'
        rw [hNext, List.head?_cons, Option.some.injEq] at hHead
        subst hHead
        exact .inl ⟨hServed, hAscending.1⟩
    · refine (h.jobs a x hx).frame (fun e he heAddr => ⟨?_, fun _ => id⟩)
        fun hConn _ _ => ⟨_, hConn, .refl _⟩
      refine (hChanged.entries e).mpr (.inr ⟨he, (hOther e he).mpr ?_⟩)
      rw [heAddr]
      exact hxAddr

omit [DecidableEq A] in
/-- A job that has got everything has no connection under way to close. -/
theorem InOrder.tearDown {s : ClientState} {job : LocalJob}
    (h : InOrder capacity route used w a s job) (hTidy : Tidy s) (hAsks : Asks w a s)
    (hJob : job ∈ s.jobs) (hDone : job.nextReq = []) :
    (∀ e ∈ s.entries, e.fd ≠ job.originSocket) ∧ Client.tearDown s job = (s, []) := by
  have hNone : ∀ e ∈ s.entries, e.fd ≠ job.originSocket := by
    intro e he hFd
    have hNonneg := (hTidy.entries e he).1
    rw [hFd] at hNonneg
    rcases h.socket hNonneg with ⟨e', he', hAddr, -⟩ | ⟨g, hg, hHeld⟩
    · obtain ⟨-, x, hx, hxAddr, hWaits, -⟩ := hTidy.entries e' he'
      rw [hTidy.addrKeys x hx job hJob (hxAddr.trans hAddr)] at hWaits
      exact hWaits hDone
    · exact hAsks.apart job hJob g hg e he (hFd.trans hHeld.symm)
  refine ⟨hNone, ?_⟩
  rw [Client.tearDown, if_neg]
  rintro ⟨-, hSome⟩
  rw [ClientState.findEntry_eq_none.mpr hNone] at hSome
  cases hSome

theorem conns_releaseAll {jobId : Int} {i : Nat} {c' : Conn A} (gs : List PendingResource) :
    ∀ {w : Wires A},
      (w.performAll route a (gs.flatMap (releaseProvider jobId))).conns[i]? = some c' →
        ∃ c, w.conns[i]? = some c ∧ Same c c' := by
  induction gs with
  | nil => exact fun hConn => ⟨c', hConn, .refl c'⟩
  | cons g gs ih =>
      intro w hConn
      rw [List.flatMap_cons, performAll_append] at hConn
      obtain ⟨d, hConn', hSame⟩ := ih hConn
      unfold releaseProvider at hConn'
      split at hConn'
      · have hSent : (w.perform route a (.send g.providerFd
            (releaseLine jobId g.type g.amount))).conns[i]? = some d := hConn'
        simp only [Wires.perform] at hSent
        split at hSent
        · obtain ⟨c, hConn'', hSame'⟩ := modify_backward Same.refl
            (fun c _ => push_same _ _ c) hSent
          exact ⟨c, hConn'', hSame'.trans hSame⟩
        · exact ⟨d, hSent, hSame⟩
      · exact ⟨d, hConn', hSame⟩

/-- JOB_RELEASE for a job that has got everything. -/
theorem Acquiring.releaseJob (h : Acquiring capacity route used w clients)
    (hTidy : Tidy (clients a)) (hAsks : Asks w a (clients a)) {job : LocalJob}
    (hJob : job ∈ (clients a).jobs) (hDone : job.nextReq = []) :
    Acquiring capacity route used
      (w.performAll route a ((tearDown (clients a) job).2 ++ released job))
      (fun x => if x = a then
        (releaseResources (tearDown (clients a) job).1 job).1.removeJob job else clients x) := by
  obtain ⟨hNone, hTorn⟩ := (h.jobs a job hJob).tearDown hTidy hAsks hJob hDone
  have hChanged := tearDown_release_changed hTidy hJob
  generalize (releaseResources (tearDown (clients a) job).1 job).1.removeJob job = s' at hChanged ⊢
  rw [hTorn, List.nil_append, released]
  -- of the open client ends, only answered ones are closed
  have hKeep : ∀ {x fd i}, w.files x fd = some (i, .client) →
      (x = a → ∀ g ∈ job.grantedReqs, fd ≠ g.providerFd) →
      (w.performAll route a (job.grantedReqs.flatMap (releaseProvider job.jobId))).files x fd =
        some (i, .client) := by
    intro x fd i hFile hOther
    refine (files_releaseAll _).mpr ⟨hFile, fun g hg _ hSame => ?_⟩
    exact hOther hSame.1 g hg hSame.2
  have hConns : ∀ {i : Nat} {c' : Conn A},
      (w.performAll route a (job.grantedReqs.flatMap (releaseProvider job.jobId))).conns[i]? =
        some c' → ∃ c, w.conns[i]? = some c ∧ Same c c' := conns_releaseAll _
  refine ⟨h.conns.frame ?_, ?_⟩
  · intro i c' hConn
    obtain ⟨c, hConn', hSame⟩ := hConns hConn
    refine ⟨c, hConn', alike_of_same hSame, fun hOpen => ⟨?_, hSame.broken⟩, ?_⟩
    · exact hSame.clientOpen.mp ((files_releaseAll _).mp hOpen).1
    · intro hServed hOpen
      refine hSame.clientOpen.mpr (hKeep hOpen ?_)
      intro hClient g hg hFd
      obtain ⟨j, d, hFile, hConn'', -, hSome⟩ := hAsks.held job hJob g hg
      rw [ClientOpen, hClient, hFd, hFile] at hOpen
      cases hOpen
      rw [hConn'] at hConn''
      cases hConn''
      rw [hServed] at hSome
      cases hSome
  · intro x job' hJob'
    by_cases hAgent : x = a
    · subst hAgent
      simp only [if_true] at hJob' ⊢
      rcases (hChanged.jobs job').mp hJob' with hNew | ⟨hOld, -⟩
      · cases hNew
      · refine (h.jobs x job' hOld).frame (fun e he _ => ⟨?_, fun i hFile => ?_⟩) ?_
        · exact (hChanged.entries e).mpr (.inr ⟨he, by simpa using hNone e he⟩)
        · exact hKeep hFile fun _ g hg => hAsks.apart job hJob g hg e he
        · intro i c' hConn _ _
          obtain ⟨c, hConn', hSame⟩ := hConns hConn
          exact ⟨c, hConn', alike_of_same hSame⟩
    · simp only [hAgent, if_false] at hJob' ⊢
      refine (h.jobs x job' hJob').frame
        (fun e he _ => ⟨he, fun i hFile => hKeep hFile fun hSame => absurd hSame hAgent⟩) ?_
      intro i c' hConn _ _
      obtain ⟨c, hConn', hSame⟩ := hConns hConn
      exact ⟨c, hConn', alike_of_same hSame⟩

end ResourceAgent.Ports.Acquisition
