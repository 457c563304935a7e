import ResourceAgent.Ports.NetInvariant

/-!
# The client's handlers keep the invariant of the network

JOB_REQUEST, GRANTED, and the ways a job ends.  A handler changes the tables and
acts on the wires; the two are brought together by `Coherent.setClient`, before
the wires are touched when a job is forgotten and after when one is connected.
-/

namespace ResourceAgent.Ports.NetInvariant

open ResourceAgent.Ports.HashTable
open ResourceAgent.Ports.Records
open ResourceAgent.Ports.Wire
open ResourceAgent.Ports.Client
open ResourceAgent.Ports.Reservation
open ResourceAgent.Ports.Network
open ResourceAgent.Verified.CText

variable {A : Type} {w : Wires A} {a : A} {clients : A → ClientState}
  {servers : A → List (Resource × Request) × Table jobCallbacks}

/-! ## Well-formed destinations -/

theorem parseDestination_wellFormed {nodes : Table nodeCallbacks} {token : Text}
    {req : PendingResource} (hToken : ∀ c ∈ token, isBlank c = false)
    (h : parseDestination nodes token = some req) : WellFormed req := by
  rw [parseDestination, Option.map_eq_some_iff] at h
  obtain ⟨⟨_, _, amt⟩, hSplit, rfl⟩ := h
  refine ⟨?_, atoi_isInt amt⟩
  simp only [splitDestination, Option.bind_eq_some_iff, Option.map_eq_some_iff] at hSplit
  obtain ⟨⟨ip, rest⟩, hIp, ⟨res, rest'⟩, hRes, ⟨amt', rest''⟩, -, hParts⟩ := hSplit
  cases hParts
  -- every character of the type comes from the token
  have hCopy : ∀ c ∈ (if (strncpy 255 token).head? = some '@' then (strncpy 255 token).tail
      else strncpy 255 token), c ∈ strncpy 255 token := by
    intro c hc
    split at hc
    · exact List.mem_of_mem_tail hc
    · exact hc
  have hFrom : ∀ c ∈ res, c ∈ strncpy 255 token :=
    fun c hc => hCopy c (mem_of_mem_strtok hIp (.inr (mem_of_mem_strtok hRes (.inl hc))))
  have hNul : '\x00' ∉ res := fun hc => nul_not_mem_strncpy 255 token (hFrom _ hc)
  have hWord := strtok_isWord hRes
  refine ⟨⟨?_, ?_⟩, nul_not_mem_strncpy 7 res, length_strncpy_le 7 res⟩
  · rw [strncpy, cString_eq_self hNul]
    intro hNil
    rw [List.take_eq_nil_iff] at hNil
    exact hWord.ne_nil (hNil.resolve_left (by decide))
  · intro c hc
    exact hToken c (mem_of_mem_strncpy (hFrom c (mem_of_mem_strncpy hc)))

theorem parseDestinations_wellFormed {nodes : Table nodeCallbacks} {tokens : List Text}
    (hTokens : ∀ token ∈ tokens, ∀ c ∈ token, isBlank c = false) :
    ∀ req ∈ parseDestinations nodes tokens, WellFormed req := by
  intro req hReq
  obtain ⟨token, hToken, hParse⟩ := List.mem_filterMap.mp hReq
  exact parseDestination_wellFormed (hTokens token hToken) hParse

/-- The destinations of a JOB_REQUEST are words. -/
theorem jobRequest_words {instruction jobId : Text} {destinations : List Text}
    (h : parseErlang instruction = .jobRequest jobId destinations) :
    ∀ token ∈ destinations, ∀ c ∈ token, isBlank c = false := by
  intro token hToken
  have hWords := tokens_isWord isBlank 32 (copyLine instruction)
  rw [parseErlang] at h
  split at h
  · cases h
  · rename_i command args hTokens
    rw [getToken] at hTokens
    rw [hTokens] at hWords
    split at h
    · split at h
      · cases h
      · cases h
        exact (hWords token (by simp [hToken])).clean
    all_goals
      repeat' split at h
      all_goals cases h

/-! ## The end of a job -/

section

variable {s s' : ClientState} {job : LocalJob}

/-- The entry of a job is under the job's own socket. -/
theorem Tidy.entry_socket (hTidy : Tidy s) (hJob : job ∈ s.jobs) {e : FdJobEntry}
    (he : e ∈ s.entries) (hSame : e.job = job.addr) : e.fd = job.originSocket := by
  obtain ⟨-, x, hx, hAddr, -, hSocket⟩ := hTidy.entries e he
  rw [hTidy.addrKeys x hx job hJob (hAddr.trans hSame)] at hSocket
  exact hSocket.symm

/-- A forgotten entry's descriptor is not used any more. -/
theorem Asks.not_uses_dropped (h : Asks w a s) {addr : Nat} {fd : Int}
    (hChanged : Changed s s' addr none [fd] []) {e : FdJobEntry} (he : e ∈ s.entries)
    (hFd : e.fd = fd) : ¬ Uses s' fd := by
  rintro (⟨e', he', hSame⟩ | ⟨x, hx, g, hg, hSame⟩)
  · rcases (hChanged.entries e').mp he' with hNone | ⟨-, hKept⟩
    · cases hNone
    · exact hKept (by simp [hSame])
  · rcases (hChanged.jobs x).mp hx with hNone | ⟨hx, -⟩
    · cases hNone
    · exact h.apart x hx g hg e he (hFd.trans hSame.symm)

/-- Neither are the connections a forgotten job held. -/
theorem Asks.not_uses_held (h : Asks w a s) (hJob : job ∈ s.jobs) {fd : Int}
    (hChanged : Changed s s' job.addr none [fd] []) {g : PendingResource}
    (hg : g ∈ job.grantedReqs) : ¬ Uses s' g.providerFd := by
  rintro (⟨e, he, hSame⟩ | ⟨x, hx, g', hg', hSame⟩)
  · rcases (hChanged.entries e).mp he with hNone | ⟨he, -⟩
    · cases hNone
    · exact h.apart job hJob g hg e he hSame
  · rcases (hChanged.jobs x).mp hx with hNone | ⟨hx, hOther⟩
    · cases hNone
    · -- the connection was made for one job only
      obtain ⟨i, c, hFile, hConn, hId, -⟩ := h.held job hJob g hg
      obtain ⟨i', c', hFile', hConn', hId', -⟩ := h.held x hx g' hg'
      rw [hSame, hFile] at hFile'
      cases hFile'
      rw [hConn] at hConn'
      cases hConn'
      exact hOther (congrArg LocalJob.addr (ClientState.eq_of_jobId hx hJob (hId'.symm.trans hId)))

theorem Asks.releasable (h : Asks w a s) (hJob : job ∈ s.jobs) {g : PendingResource}
    (hg : g ∈ job.grantedReqs) : Releasable w a g.providerFd := by
  obtain ⟨i, c, hFile, hConn, -, hServed⟩ := h.held job hJob g hg
  exact .inr ⟨i, c, hFile, hConn, hServed⟩

end

variable [DecidableEq A]

/-- A job ends on a rejection or a disconnect: it is forgotten and what it held
is released. -/
theorem Coherent.rejectJob (h : Coherent w clients servers) (route : Text → Int → A)
    (hTidy : Tidy (clients a)) {s' : ClientState} {job : LocalJob} {fd : Int}
    (hJob : job ∈ (clients a).jobs) (hEntry : ⟨fd, job.addr⟩ ∈ (clients a).entries)
    (hChanged : Changed (clients a) s' job.addr none [fd] []) :
    Coherent (w.performAll route a (released job))
      (fun x => if x = a then s' else clients x) servers := by
  have hAsks := h.asks a
  have hSocket : fd = job.originSocket := Tidy.entry_socket hTidy hJob hEntry rfl
  have hForget := h.setClient (hAsks.forget hChanged fun e he hSame => by
    rw [hSocket]
    exact Tidy.entry_socket hTidy hJob he hSame)
  refine hForget.releaseAll route (hTidy.ids job hJob) _ fun g hg => ?_
  refine ⟨hAsks.releasable hJob hg, ?_, hAsks.reqs job hJob g (by simp [hg])⟩
  simpa using hAsks.not_uses_held hJob hChanged hg

/-- A job ends by JOB_RELEASE or by a timeout: its connection under way is
closed, and what it held is released. -/
theorem Coherent.tearDownJob (h : Coherent w clients servers) (route : Text → Int → A)
    (hTidy : Tidy (clients a)) {job : LocalJob} (hJob : job ∈ (clients a).jobs) :
    Coherent (w.performAll route a ((tearDown (clients a) job).2 ++ released job))
      (fun x => if x = a then
        (releaseResources (tearDown (clients a) job).1 job).1.removeJob job else clients x)
      servers := by
  have hAsks := h.asks a
  have hChanged := tearDown_release_changed hTidy hJob
  have hForget := h.setClient (hAsks.forget hChanged fun e he hSame =>
    Tidy.entry_socket hTidy hJob he hSame)
  rw [performAll_append]
  have hHeld : ∀ g ∈ job.grantedReqs, ¬ Uses
      ((releaseResources (tearDown (clients a) job).1 job).1.removeJob job) g.providerFd :=
    fun g hg => hAsks.not_uses_held hJob hChanged hg
  by_cases hEntry : 0 ≤ job.originSocket ∧ ((clients a).findEntry job.originSocket).isSome
  · obtain ⟨e, hFind⟩ := Option.isSome_iff_exists.mp hEntry.2
    obtain ⟨he, hFd⟩ := ClientState.findEntry_eq_some.mp hFind
    obtain ⟨i, c, hFile, -⟩ := hAsks.entry e he
    have hUnused := hAsks.not_uses_dropped hChanged he hFd
    have hOut : w.performAll route a (tearDown (clients a) job).2 =
        w.setFile a job.originSocket none := by
      simp only [tearDown, hEntry, and_self, if_true]
      rfl
    rw [hOut]
    have hClient : ∀ j, w.files a job.originSocket ≠ some (j, .server) := by
      intro j hServer
      rw [← hFd, hFile] at hServer
      cases hServer
    have hClosed := hForget.closeClient hClient (by simpa using hUnused)
    refine hClosed.releaseAll route (hTidy.ids job hJob) _ fun g hg => ⟨?_, ?_, ?_⟩
    · obtain ⟨j, d, hFile', hConn, -, hServed⟩ := hAsks.held job hJob g hg
      refine .inr ⟨j, d, files_close.mpr ⟨hFile', ?_⟩, hConn, hServed⟩
      rintro ⟨-, hSame⟩
      exact hAsks.apart job hJob g hg e he (hFd.trans hSame.symm)
    · simpa using hHeld g hg
    · exact hAsks.reqs job hJob g (by simp [hg])
  · have hOut : w.performAll route a (tearDown (clients a) job).2 = w := by
      simp only [tearDown, hEntry, if_false]
      rfl
    rw [hOut]
    refine hForget.releaseAll route (hTidy.ids job hJob) _ fun g hg => ?_
    exact ⟨hAsks.releasable hJob hg, by simpa using hHeld g hg,
      hAsks.reqs job hJob g (by simp [hg])⟩

/-- The second pass of the sweep. -/
theorem Coherent.timeOut (route : Text → Int → A) (ids : List Int) :
    ∀ {w : Wires A} {clients : A → ClientState}, Coherent w clients servers → Tidy (clients a) →
      Coherent (w.performAll route a (Client.timeOut ids (clients a)).2)
        (fun x => if x = a then (Client.timeOut ids (clients a)).1 else clients x) servers := by
  induction ids with
  | nil =>
      intro w clients h _
      exact h.sameClient
  | cons jobId ids ih =>
      intro w clients h hTidy
      cases hFind : (clients a).findJob jobId with
      | none =>
          simp only [Client.timeOut, hFind]
          exact ih h hTidy
      | some job =>
          obtain ⟨hJob, -⟩ := ClientState.findJob_eq_some.mp hFind
          have hEnd := h.tearDownJob route hTidy hJob
          have hMove : Tidy ((releaseResources (tearDown (clients a) job).1 job).1.removeJob job) :=
            tidy_of_changed hTidy rfl rfl (le_refl _) (tearDown_release_changed hTidy hJob)
              (by simp) (fun x hx hSame _ => by simp [hTidy.addrKeys x hx job hJob hSame]) (by simp)
          have hRest := ih hEnd (by simpa using hMove)
          simp only [if_true] at hRest
          simp only [Client.timeOut, hFind, cToErlang_itoa (hTidy.ids job hJob)]
          rw [performAll_append, performAll_append]
          exact hRest.overwriteClient

/-! ## Asking for resources -/

/-- JOB_REQUEST with a new id. -/
theorem Coherent.createJob (h : Coherent w clients servers) (route : Text → Int → A)
    (hTidy : Tidy (clients a)) {job : LocalJob} {dial : Dial} (hId : IsInt job.jobId)
    (hAbsent : ∀ x ∈ (clients a).jobs, x.jobId ≠ job.jobId)
    (hNew : job = makeJob (clients a) job.jobId job.nextReq job.timer)
    (hReqs : ∀ req ∈ job.nextReq, WellFormed req) (hFree : w.Free a dial) :
    Coherent (w.performAll route a
        (askForNextResource dial ((clients a).insertJob job) job).2)
      (fun x => if x = a then (askForNextResource dial ((clients a).insertJob job) job).1
        else clients x) servers := by
  have hInsert := insertJob_changed hTidy hAbsent hNew
  have hGranted : job.grantedReqs = [] := by
    rw [hNew]
    rfl
  have hAddr : job.addr = (clients a).brk := by
    rw [hNew]
    rfl
  have hNone : ∀ e ∈ (clients a).entries, e.job ≠ job.addr := by
    intro e he hSame
    obtain ⟨-, x, hx, hxAddr, -⟩ := hTidy.entries e he
    have := hTidy.allocated x hx
    omega
  have hAsks : Asks w a { clients a with brk := (clients a).brk + 1 } :=
    ⟨(h.asks a).entry, (h.asks a).held, (h.asks a).apart, (h.asks a).reqs⟩
  have hStored := h.setClient (hAsks.changed hInsert (fun e he _ => hNone e he) (by simp)
    (by rintro x ⟨⟩ g hg; simp [hGranted] at hg)
    (by rintro x ⟨⟩ req hReq; exact hReqs req (by simpa [hGranted] using hReq)))
  have hKeys := hInsert.addrKeys hTidy.addrKeys (by rintro x ⟨⟩; rfl)
  have hAsked := hStored.ask route (by simpa using hKeys) (by simpa using hInsert.mem_self) hId
    (by simpa using hNone) hFree
  simp only [if_true] at hAsked
  exact hAsked.overwriteClient

/-- GRANTED on a connection on which the request has been served. -/
theorem Coherent.advanceJob (h : Coherent w clients servers) (route : Text → Int → A)
    (hTidy : Tidy (clients a)) {job : LocalJob} {dial : Dial} {fd : Int} (now : Int)
    (hJob : job ∈ (clients a).jobs) (hEntry : ⟨fd, job.addr⟩ ∈ (clients a).entries)
    {i : Nat} {c : Conn A} (hFile : w.files a fd = some (i, .client))
    (hConn : w.conns[i]? = some c) (hServed : c.served.isSome = true) (hFree : w.Free a dial) :
    Coherent (w.performAll route a (askForNextResource dial
          (((clients a).writeJob (LocalJob.advance job fd now)).removeEntry fd)
          (LocalJob.advance job fd now)).2)
      (fun x => if x = a then (askForNextResource dial
          (((clients a).writeJob (LocalJob.advance job fd now)).removeEntry fd)
          (LocalJob.advance job fd now)).1
        else clients x) servers := by
  have hAsks := h.asks a
  have hAddr := LocalJob.advance_addr job fd now
  have hId := LocalJob.advance_jobId job fd now
  have hChanged := advance_changed hTidy.addrKeys hJob fd now
  -- the entry leads to this job, so the connection was made for its head request
  obtain ⟨i', c', hFile', hConn', job', hJob', hAddr', hId', hHead⟩ := hAsks.entry _ hEntry
  rw [hFile] at hFile'
  cases hFile'
  rw [hConn] at hConn'
  cases hConn'
  obtain rfl := hTidy.addrKeys job' hJob' job hJob hAddr'
  obtain ⟨req, rest, hNext⟩ : ∃ req rest, job'.nextReq = req :: rest := by
    cases hNext : job'.nextReq with
    | nil =>
        rw [hNext] at hHead
        cases hHead
    | cons req rest => exact ⟨req, rest, rfl⟩
  have hOld : ∀ e ∈ (clients a).entries, e.fd ∉ [fd] → e.job ≠ job'.addr := by
    intro e he hKept hSame
    have hFd : fd = job'.originSocket := Tidy.entry_socket hTidy hJob hEntry rfl
    exact hKept (by simp [Tidy.entry_socket hTidy hJob he hSame, hFd])
  have hAdvance : LocalJob.advance job' fd now = { job' with
      nextReq := rest
      grantedReqs := { req with providerFd := fd } :: job'.grantedReqs
      timer := now } := by
    simp only [LocalJob.advance, hNext]
  have hGranted : Asks w a
      (((clients a).writeJob (LocalJob.advance job' fd now)).removeEntry fd) := by
    refine hAsks.changed hChanged hOld (by simp) ?_ ?_
    · rintro x hx g hg
      cases hx
      rw [hAdvance] at hg
      rcases List.mem_cons.mp hg with rfl | hg
      · refine ⟨⟨i, c, hFile, hConn, ?_, hServed⟩, fun e _ hKept => ?_⟩
        · rw [hId, hId']
        · simpa using hKept
      · rw [hId]
        exact ⟨hAsks.held job' hJob g hg, fun e he _ => hAsks.apart job' hJob g hg e he⟩
    · rintro x hx req' hReq'
      cases hx
      rw [hAdvance] at hReq'
      have hAll := hAsks.reqs job' hJob
      rcases List.mem_append.mp hReq' with hIn | hIn
      · exact hAll req' (by simp [hNext, hIn])
      · rcases List.mem_cons.mp hIn with rfl | hIn
        · exact hAll req (by simp [hNext])
        · exact hAll req' (by simp [hIn])
  have hStored := h.setClient hGranted
  have hKeys := hChanged.addrKeys hTidy.addrKeys (by rintro x ⟨⟩; exact hAddr)
  have hNone : ∀ e ∈ (((clients a).writeJob (LocalJob.advance job' fd now)).removeEntry fd).entries,
      e.job ≠ (LocalJob.advance job' fd now).addr := by
    intro e he
    rcases (hChanged.entries e).mp he with hNone | ⟨he, hKept⟩
    · cases hNone
    · rw [hAddr]
      exact hOld e he hKept
  have hInt : IsInt (LocalJob.advance job' fd now).jobId := by
    rw [hId]
    exact hTidy.ids job' hJob
  have hAsked := hStored.ask route (by simpa using hKeys) (by simpa using hChanged.mem_self) hInt
    (by simpa using hNone) hFree
  simp only [if_true] at hAsked
  exact hAsked.overwriteClient

theorem performAll_cToErlang (route : Text → Int → A) (instruction : Instruction) (jobId : Text) :
    w.performAll route a (cToErlang instruction jobId) = w := by
  unfold cToErlang
  split <;> rfl

/-- `erlang_to_C`. -/
theorem Coherent.erlang (h : Coherent w clients servers) (route : Text → Int → A)
    (hTidy : Tidy (clients a)) {instruction : Text} {timer : Int} {nodes : Table nodeCallbacks}
    {dial : Dial} (hFresh : FreshRequest (clients a) (.erlang instruction timer nodes dial))
    (hFree : w.Free a dial) :
    Coherent (w.performAll route a
        (clientStep (clients a) (.erlang instruction timer nodes dial)).2)
      (fun x => if x = a then (clientStep (clients a) (.erlang instruction timer nodes dial)).1
        else clients x) servers := by
  simp only [clientStep]
  cases hParse : parseErlang instruction with
  | jobRequest jobId destinations =>
      cases destinations with
      | nil =>
          simp only [erlangToC, performAll_cToErlang]
          exact h.sameClient
      | cons token tokens =>
          refine h.createJob route hTidy (atoi_isInt jobId) ?_ rfl ?_ hFree
          · intro x hx hSame
            exact hFresh x hx (by simp [causeOf, Cause.requested, hParse, hSame, makeJob])
          · exact parseDestinations_wellFormed (jobRequest_words hParse)
  | jobRelease jobId =>
      simp only [erlangToC]
      cases hFind : (clients a).findJob (atoi jobId) with
      | none => exact h.sameClient
      | some job =>
          exact h.tearDownJob route hTidy (ClientState.findJob_eq_some.mp hFind).1
  | jobStatus jobId =>
      simp only [erlangToC]
      cases (clients a).findJob (atoi jobId) with
      | none =>
          simp only [performAll_cToErlang]
          exact h.sameClient
      | some job =>
          simp only
          split
          · rw [performAll_cToErlang]
            exact h.sameClient
          · rw [performAll_cToErlang]
            exact h.sameClient
  | getNodes => exact h.sameClient
  | ignored => exact h.sameClient

theorem performAll_send {route : Text → Int → A} {fd : Int} {i : Nat} {side : Side} {line : Text}
    (h : w.files a fd = some (i, side)) :
    w.performAll route a [.send fd line, .epollMod fd] = w.modify i (Conn.push side line) := by
  have hSend : w.perform route a (.send fd line) = w.modify i (Conn.push side line) :=
    perform_send h
  exact hSend

/-- `send_request`, when the connection is first reported writable. -/
theorem Coherent.writable (h : Coherent w clients servers) (route : Text → Int → A)
    (hTidy : Tidy (clients a)) {i : Nat} {c : Conn A} {fd : Int}
    (hFile : w.files a fd = some (i, .client)) (hConn : w.conns[i]? = some c)
    (hArmed : c.armed = true) :
    Coherent ((w.modify i fun c => { c with armed := false }).performAll route a
        (sendRequest (clients a) fd).2)
      (fun x => if x = a then (sendRequest (clients a) fd).1 else clients x) servers := by
  have hFlow := h.flow hConn
  obtain ⟨hReceived, hEmpty⟩ := hFlow.armed hArmed
  have hQuiet : ∀ c : Conn A, Quiet c { c with armed := false } :=
    fun _ => ⟨⟨rfl, rfl, rfl, rfl, rfl, rfl⟩, rfl, rfl, id⟩
  have hDisarmed : Flow w i { c with armed := false } :=
    ⟨hFlow.job, hFlow.req, .inl hEmpty, by simp, hFlow.received, hFlow.served, hFlow.toClient,
      hFlow.accepted⟩
  have hIdle := h.modify (i := i) (fun c _ => hQuiet c)
    (fun d hSame => Option.some.inj (hConn.symm.trans hSame) ▸ hDisarmed)
  simp only [sendRequest]
  cases hOwner : (clients a).owner fd with
  | none => exact hIdle.sameClient
  | some job =>
      obtain ⟨hEntry, hJob⟩ := (ClientState.owner_eq_some hTidy.addrKeys).mp hOwner
      obtain ⟨i', c', hFile', hConn', job', hJob', hAddr', hId, hHead⟩ := (h.asks a).entry _ hEntry
      rw [hFile] at hFile'
      cases hFile'
      rw [hConn] at hConn'
      cases hConn'
      obtain rfl := hTidy.addrKeys job' hJob' job hJob hAddr'
      cases hNext : job'.nextReq with
      | nil =>
          simp only [hNext]
          exact hIdle.sameClient
      | cons req rest =>
          rw [hNext, List.head?_cons, Option.some.injEq] at hHead
          subst hHead
          simp only [hNext]
          have hSend : (w.modify i fun c => { c with armed := false }).performAll route a
              [.send fd (reserveLine job'.jobId c.req.type c.req.amount), .epollMod fd] =
                (w.modify i fun c => { c with armed := false }).modify i
                  (Conn.push .client (reserveLine job'.jobId c.req.type c.req.amount)) :=
            performAll_send hFile
          rw [hSend]
          refine (hIdle.modify (fun c _ => push_quiet _ _ c) ?_).sameClient
          intro d hSame
          rw [conns_modify_self hConn] at hSame
          cases hSame
          have hFlow' := hIdle.flow (conns_modify_self hConn)
          unfold Conn.push
          split
          · exact hFlow'
          · refine ⟨hFlow'.job, hFlow'.req, .inr (.inl ⟨?_, hReceived, rfl⟩), by simp,
              hFlow'.received, hFlow'.served, hFlow'.toClient, hFlow'.accepted⟩
            simp [hEmpty, hId]

end ResourceAgent.Ports.NetInvariant
