import ResourceAgent.Ports.ClientMoves
import ResourceAgent.Verified.Runs

/-!
# Runs of the client side

Two results about every sequence of client-side handlers in which a JOB_REQUEST
brings an id that is not in `table_localjobs`.

* `reservation_machine` — granted and ungranted destinations of a job are those
  of its JOB_REQUEST, in order, and an index entry leads to a waiting job.
* `one_verdict` — from the JOB_REQUEST that creates a job until the job is gone,
  the agent tells the scheduler at most one verdict; `Told` relates what was told
  to where the job stands.
-/

namespace ResourceAgent.Ports.ClientRun

open ResourceAgent.Ports.HashTable
open ResourceAgent.Ports.Records
open ResourceAgent.Ports.Wire
open ResourceAgent.Ports.Client
open ResourceAgent.Verified.CText
open ResourceAgent.Verified.Runs

/-- The state a handler leaves. -/
def next (s : ClientState) (e : ClientEvent) : ClientState := (clientStep s e).1

/-- Every JOB_REQUEST of the run brings an unused id. -/
def Fresh (es : List ClientEvent) : Prop := Meets next FreshRequest ClientState.init es

instance (es : List ClientEvent) : Decidable (Fresh es) :=
  inferInstanceAs (Decidable (Meets next FreshRequest ClientState.init es))

theorem tidy_run {es : List ClientEvent} (hFresh : Fresh es) :
    Tidy (run next ClientState.init es) :=
  run_invariant Tidy (fun _ _ hTidy h => hTidy.step h) tidy_init hFresh

/-! ## Destinations -/

/-- A request as it was parsed, before a connection was kept for it. -/
def destination (req : PendingResource) : PendingResource := { req with providerFd := -1 }

/-- `reverse(granted_reqs)` followed by `next_req`. -/
def destinations (job : LocalJob) : List PendingResource :=
  (job.grantedReqs.reverse ++ job.nextReq).map destination

theorem destinations_advance (job : LocalJob) (fd now : Int) :
    destinations (LocalJob.advance job fd now) = destinations job := by
  unfold LocalJob.advance
  split
  · rfl
  · rename_i req rest hNext
    simp [destinations, hNext, destination]

theorem destinations_asked (dial : Dial) (job : LocalJob) :
    destinations (asked dial job).job = destinations job := by
  rw [destinations, asked_grantedReqs, asked_nextReq]
  rfl

theorem destinations_parse (nodes : Table nodeCallbacks) (tokens : List Text) :
    (parseDestinations nodes tokens).map destination = parseDestinations nodes tokens := by
  have hParsed : ∀ req ∈ parseDestinations nodes tokens, destination req = req := by
    intro req hreq
    obtain ⟨token, -, hToken⟩ := List.mem_filterMap.mp hreq
    obtain ⟨dest, -, rfl⟩ := Option.map_eq_some_iff.mp hToken
    rfl
  rw [List.map_congr_left hParsed, List.map_id']

section

variable {s s' : ClientState} {cause : Cause} {out : List Effect}

/-- A job after a move is a job from before, with its address, its id and its
destinations, or the new one. -/
theorem origin_of_move (h : Move cause s s' out) :
    ∀ x ∈ s'.jobs,
      (∃ y ∈ s.jobs, y.addr = x.addr ∧ y.jobId = x.jobId ∧ destinations y = destinations x) ∨
      (s.brk ≤ x.addr ∧ ∃ reqs, cause = .request x.jobId reqs ∧
        destinations x = reqs.map destination) := by
  intro x hx
  cases h with
  | idle => exact .inl ⟨x, hx, rfl, rfl, rfl⟩
  | refuse _ _ => exact .inl ⟨x, hx, rfl, rfl, rfl⟩
  | reserve _ _ _ => exact .inl ⟨x, hx, rfl, rfl, rfl⟩
  | @create _ job dial hId hAbsent hNew hCause hChanged =>
      rcases (hChanged.jobs x).mp hx with hx | ⟨hx, -⟩
      · cases hx
        refine .inr ⟨?_, job.nextReq, ?_, ?_⟩
        · rw [asked_addr, hNew]
          exact le_refl s.brk
        · rw [asked_jobId]
          exact hCause
        · rw [destinations_asked, destinations, hNew]
          rfl
      · exact .inl ⟨x, hx, rfl, rfl, rfl⟩
  | @grant _ fd job now dial hEntry hJob hChanged =>
      rcases (hChanged.jobs x).mp hx with hx | ⟨hx, -⟩
      · cases hx
        refine .inl ⟨job, hJob, ?_, ?_, ?_⟩
        · rw [asked_addr, LocalJob.advance_addr]
        · rw [asked_jobId, LocalJob.advance_jobId]
        · rw [destinations_asked, destinations_advance]
      · exact .inl ⟨x, hx, rfl, rfl, rfl⟩
  | reject _ _ hChanged =>
      rcases (hChanged.jobs x).mp hx with hx | ⟨hx, -⟩
      · cases hx
      · exact .inl ⟨x, hx, rfl, rfl, rfl⟩
  | release _ _ hChanged =>
      rcases (hChanged.jobs x).mp hx with hx | ⟨hx, -⟩
      · cases hx
      · exact .inl ⟨x, hx, rfl, rfl, rfl⟩
  | timeOut _ _ hChanged =>
      rcases (hChanged.jobs x).mp hx with hx | ⟨hx, -⟩
      · cases hx
      · exact .inl ⟨x, hx, rfl, rfl, rfl⟩

theorem brk_le_of_move (h : Move cause s s' out) : s.brk ≤ s'.brk := by
  cases h with
  | idle => exact le_refl _
  | refuse _ _ => exact le_refl _
  | reserve _ _ _ => exact le_refl _
  | create _ _ _ _ hChanged =>
      rw [hChanged.brk]
      exact Nat.le_succ _
  | grant _ _ hChanged => exact hChanged.brk ▸ le_refl _
  | reject _ _ hChanged => exact hChanged.brk ▸ le_refl _
  | release _ _ hChanged => exact hChanged.brk ▸ le_refl _
  | timeOut _ _ hChanged => exact hChanged.brk ▸ le_refl _

theorem origin_of_moves (h : Moves cause s s' out) :
    ∀ x ∈ s'.jobs,
      (∃ y ∈ s.jobs, y.addr = x.addr ∧ y.jobId = x.jobId ∧ destinations y = destinations x) ∨
      (s.brk ≤ x.addr ∧ ∃ reqs, cause = .request x.jobId reqs ∧
        destinations x = reqs.map destination) := by
  induction h with
  | nil s => exact fun x hx => .inl ⟨x, hx, rfl, rfl, rfl⟩
  | cons hMove _ ih =>
      intro x hx
      rcases ih x hx with ⟨y, hy, hAddr, hId, hDest⟩ | ⟨hAddr, hRequest⟩
      · rcases origin_of_move hMove y hy with ⟨z, hz, hAddr', hId', hDest'⟩
        | ⟨hAddr', reqs, hNew, hReqs⟩
        · exact .inl ⟨z, hz, hAddr'.trans hAddr, hId'.trans hId, hDest'.trans hDest⟩
        · exact .inr ⟨hAddr ▸ hAddr', reqs, hId ▸ hNew, hDest ▸ hReqs⟩
      · exact .inr ⟨(brk_le_of_move hMove).trans hAddr, hRequest⟩

end

/-- One handler: every job was there before, with the same destinations, or is
the one its JOB_REQUEST created. -/
theorem origin_step {s : ClientState} (hTidy : Tidy s) {e : ClientEvent}
    (hFresh : FreshRequest s e) :
    ∀ x ∈ (next s e).jobs,
      (∃ y ∈ s.jobs, y.addr = x.addr ∧ y.jobId = x.jobId ∧ destinations y = destinations x) ∨
      (s.brk ≤ x.addr ∧ ∃ reqs, causeOf e = .request x.jobId reqs ∧
        destinations x = reqs.map destination) := by
  cases hQuery : isQuery e with
  | true =>
      rw [next, clientStep_query hQuery]
      exact fun x hx => .inl ⟨x, hx, rfl, rfl, rfl⟩
  | false => exact origin_of_moves (clientStep_moves hTidy hFresh hQuery)

theorem causeOf_eq_request {e : ClientEvent} {jobId : Int} {reqs : List PendingResource}
    (h : causeOf e = .request jobId reqs) :
    ∃ instruction timer nodes dial token tokens,
      e = .erlang instruction timer nodes dial ∧
      parseErlang instruction = .jobRequest token tokens ∧ atoi token = jobId ∧
      parseDestinations nodes tokens = reqs := by
  cases e with
  | erlang instruction timer nodes dial =>
      simp only [causeOf] at h
      split at h
      · rename_i token tokens hParse
        simp only [Cause.request.injEq] at h
        exact ⟨instruction, timer, nodes, dial, token, tokens, rfl, hParse, h.1, h.2⟩
      · cases h
      · cases h
  | _ => cases h

/-- The job was created by the last JOB_REQUEST with its id, and asks for the
destinations of that line. -/
def FromRequest (es : List ClientEvent) (job : LocalJob) : Prop :=
  ∃ past instruction timer nodes dial later token tokens,
    es = past ++ ClientEvent.erlang instruction timer nodes dial :: later ∧
    parseErlang instruction = .jobRequest token tokens ∧ atoi token = job.jobId ∧
    (∀ e ∈ later, (causeOf e).requested ≠ some job.jobId) ∧
    destinations job = parseDestinations nodes tokens

theorem fromRequest_run {es : List ClientEvent} (hFresh : Fresh es) :
    ∀ job ∈ (run next ClientState.init es).jobs, FromRequest es job := by
  refine (run_invariant_history
    (fun es s => Tidy s ∧ ∀ job ∈ s.jobs, FromRequest es job) ?_ ?_ hFresh).2
  · rintro es s e ⟨hTidy, hAll⟩ hOk
    refine ⟨hTidy.step hOk, fun x hx => ?_⟩
    rcases origin_step hTidy hOk x hx with ⟨y, hy, -, hId, hDest⟩ | ⟨-, reqs, hNew, hDest⟩
    · obtain ⟨past, instruction, timer, nodes, dial, later, token, tokens, rfl, hParse, hToken,
        hLater, hDest'⟩ := hAll y hy
      refine ⟨past, instruction, timer, nodes, dial, later ++ [e], token, tokens, by simp, hParse,
        hToken.trans hId, ?_, hDest.symm.trans hDest'⟩
      intro f hf
      rw [← hId]
      rcases List.mem_append.mp hf with hf | hf
      · exact hLater f hf
      · rw [List.mem_singleton.mp hf]
        exact hOk y hy
    · obtain ⟨instruction, timer, nodes, dial, token, tokens, rfl, hParse, hToken, rfl⟩ :=
        causeOf_eq_request hNew
      refine ⟨es, instruction, timer, nodes, dial, [], token, tokens, rfl, hParse, hToken,
        by simp, ?_⟩
      rw [hDest, destinations_parse]
  · refine ⟨tidy_init, fun job hJob => ?_⟩
    simp [ClientState.jobs, ClientState.init] at hJob

/-- **The reservation state machine.**  In every run: the granted destinations of
a job, oldest first, followed by the ungranted ones are the well-formed
destinations of its JOB_REQUEST, the last one with its id; an index entry leads
to a job in the owner table that is still waiting, on that descriptor, and what
is sent there is the request for its first ungranted destination; and no job has
two entries. -/
theorem reservation_machine {es : List ClientEvent} (hFresh : Fresh es) :
    (∀ job ∈ (run next ClientState.init es).jobs,
      ∃ past instruction timer nodes dial later token tokens,
        es = past ++ ClientEvent.erlang instruction timer nodes dial :: later ∧
        parseErlang instruction = .jobRequest token tokens ∧ atoi token = job.jobId ∧
        (∀ e ∈ later, (causeOf e).requested ≠ some job.jobId) ∧
        (job.grantedReqs.reverse ++ job.nextReq).map destination =
          parseDestinations nodes tokens) ∧
    (∀ e ∈ (run next ClientState.init es).entries,
      ∃ job ∈ (run next ClientState.init es).jobs, job.addr = e.job ∧
        job.originSocket = e.fd ∧ ∃ req rest, job.nextReq = req :: rest ∧
          (sendRequest (run next ClientState.init es) e.fd).2 =
            [.send e.fd (reserveLine job.jobId req.type req.amount), .epollMod e.fd]) ∧
    (∀ e ∈ (run next ClientState.init es).entries, ∀ e' ∈ (run next ClientState.init es).entries,
      e.job = e'.job → e = e') := by
  have hTidy := tidy_run hFresh
  refine ⟨fromRequest_run hFresh, ?_, ?_⟩
  · intro e he
    obtain ⟨-, job, hJob, hAddr, hNext, hSocket⟩ := hTidy.entries e he
    obtain ⟨req, rest, hNext⟩ := List.exists_cons_of_ne_nil hNext
    refine ⟨job, hJob, hAddr, hSocket, req, rest, hNext, ?_⟩
    have hOwner : (run next ClientState.init es).owner e.fd = some job := by
      rw [ClientState.owner_eq_some hTidy.addrKeys, hAddr]
      exact ⟨he, hJob⟩
    simp only [sendRequest, hOwner, hNext]
  · intro e he e' he' hSame
    obtain ⟨-, job, hJob, hAddr, -, hSocket⟩ := hTidy.entries e he
    obtain ⟨-, job', hJob', hAddr', -, hSocket'⟩ := hTidy.entries e' he'
    have hEq : job = job' :=
      hTidy.addrKeys job hJob job' hJob' (hAddr.trans (hSame.trans hAddr'.symm))
    refine ClientState.eq_of_fd he he' ?_
    rw [← hSocket, ← hSocket', hEq]

/-- A job with two destinations: the first is granted on descriptor 5, the second
is being asked for on descriptor 6. -/
def halfGranted : List ClientEvent :=
  [.erlang "JOB_REQUEST 1001 @10.0.0.1:cpu:2 bad @10.0.0.2:mem:3\n".toList 0
      (tablahashCreate _) (.connected 5),
    .sendRequest 5, .line 5 "GRANTED 1001\n".toList 1 (.connected 6)]

theorem reservation_machine_halfGranted :
    Fresh halfGranted ∧
      (run next ClientState.init halfGranted).entries ≠ [] ∧
      ∀ e ∈ (run next ClientState.init halfGranted).entries,
        ∃ job ∈ (run next ClientState.init halfGranted).jobs, job.addr = e.job ∧
          job.originSocket = e.fd ∧ ∃ req rest, job.nextReq = req :: rest ∧
            (sendRequest (run next ClientState.init halfGranted) e.fd).2 =
              [.send e.fd (reserveLine job.jobId req.type req.amount), .epollMod e.fd] := by
  have hFresh : Fresh halfGranted := by decide +kernel
  exact ⟨hFresh, by decide +kernel, (reservation_machine hFresh).2.1⟩

/-! ## Verdicts -/

/-- The verdicts about the job id `j` among the effects of a handler. -/
def verdicts (j : Int) (out : List Effect) : List Instruction :=
  out.filterMap fun
    | .toErlang instruction jobId =>
        if instruction ≠ .waiting ∧ atoi jobId = j then some instruction else none
    | _ => none

/-- The verdicts about `j` a handler gives unasked. -/
def unsolicited (j : Int) (s : ClientState) (e : ClientEvent) : List Instruction :=
  if isQuery e then [] else verdicts j (clientStep s e).2

/-- The unasked verdicts about `j` along a run. -/
def told (j : Int) : ClientState → List ClientEvent → List Instruction
  | _, [] => []
  | s, e :: es => unsolicited j s e ++ told j (next s e) es

/-- Where a job stands: absent, waiting (`false`) or fully granted (`true`). -/
def phase (s : ClientState) (j : Int) : Option Bool :=
  (s.findJob j).map fun job => decide (job.nextReq = [])

/-- What has been told about a job since its JOB_REQUEST, given where it stands. -/
def Told : Option Bool → List Instruction → Prop
  | some false, sofar => sofar = []
  | some true, sofar => sofar = [.granted]
  | none, sofar => sofar.length ≤ 1

@[simp] theorem verdicts_append (j : Int) (out out' : List Effect) :
    verdicts j (out ++ out') = verdicts j out ++ verdicts j out' := by simp [verdicts]

@[simp] theorem verdicts_nil (j : Int) : verdicts j [] = [] := rfl

theorem verdicts_toErlang (j : Int) (instruction : Instruction) {jobId : Int} (h : IsInt jobId)
    (hVerdict : instruction ≠ .waiting) :
    verdicts j [.toErlang instruction (itoa jobId)] =
      if jobId = j then [instruction] else [] := by
  by_cases hSame : jobId = j
  · subst hSame
    simp [verdicts, hVerdict, atoi_itoa h]
  · simp [verdicts, hVerdict, atoi_itoa h, hSame]

theorem verdicts_released (j : Int) (job : LocalJob) : verdicts j (released job) = [] := by
  unfold released
  induction job.grantedReqs with
  | nil => rfl
  | cons granted rest ih =>
      rw [List.flatMap_cons, verdicts_append, ih, List.append_nil, releaseProvider]
      split <;> rfl

theorem verdicts_tearDown (j : Int) (s : ClientState) (job : LocalJob) :
    verdicts j (tearDown s job).2 = [] := by
  unfold tearDown
  split <;> rfl

theorem verdicts_asked (j : Int) (dial : Dial) {job : LocalJob} (h : IsInt job.jobId) :
    verdicts j (asked dial job).out =
      if job.nextReq = [] ∧ job.jobId = j then [.granted] else [] := by
  cases hNext : job.nextReq with
  | nil =>
      simp only [asked, hNext, true_and]
      exact verdicts_toErlang j .granted h (by decide)
  | cons req rest =>
      cases dial <;> simp [asked, hNext, verdicts]

/-! ## Phases -/

theorem phase_eq_none {s : ClientState} {j : Int} :
    phase s j = none ↔ ∀ job ∈ s.jobs, job.jobId ≠ j := by
  rw [phase, Option.map_eq_none_iff, ClientState.findJob_eq_none]

theorem phase_eq_some {s : ClientState} {j : Int} {b : Bool} :
    phase s j = some b ↔ ∃ job ∈ s.jobs, job.jobId = j ∧ decide (job.nextReq = []) = b := by
  simp only [phase, Option.map_eq_some_iff, ClientState.findJob_eq_some, and_assoc]

theorem phase_of_mem {s : ClientState} {job : LocalJob} (h : job ∈ s.jobs) :
    phase s job.jobId = some (decide (job.nextReq = [])) :=
  phase_eq_some.mpr ⟨job, h, rfl, rfl⟩

section

variable {s s' : ClientState} {addr : Nat} {dropped : List Int} {added : List FdJobEntry}

/-- A change of another job. -/
theorem phase_changed_ne {new : Option LocalJob} (h : Changed s s' addr new dropped added) {j : Int}
    (hOld : ∀ x ∈ s.jobs, x.addr = addr → x.jobId ≠ j)
    (hNew : ∀ x, new = some x → x.jobId ≠ j) : phase s' j = phase s j := by
  apply Option.ext
  intro b
  rw [phase_eq_some, phase_eq_some]
  constructor
  · rintro ⟨x, hx, hId, hNext⟩
    rcases (h.jobs x).mp hx with hx | ⟨hx, -⟩
    · exact absurd hId (hNew x hx)
    · exact ⟨x, hx, hId, hNext⟩
  · rintro ⟨x, hx, hId, hNext⟩
    exact ⟨x, (h.jobs x).mpr (.inr ⟨hx, fun hAddr => hOld x hx hAddr hId⟩), hId, hNext⟩

/-- The end of a job. -/
theorem phase_changed_none {job : LocalJob} (hJob : job ∈ s.jobs)
    (h : Changed s s' job.addr none dropped added) : phase s' job.jobId = none := by
  rw [phase_eq_none]
  intro x hx hId
  rcases (h.jobs x).mp hx with hx | ⟨hx, hAddr⟩
  · cases hx
  · rw [ClientState.eq_of_jobId hx hJob hId] at hAddr
    exact hAddr rfl

end

section

variable {s s' : ClientState} {cause : Cause} {out : List Effect}

/-- How a move can change the standing of the job id `j`, and what it tells about
it, if it is not the JOB_REQUEST for `j`. -/
inductive Judged (cause : Cause) (j : Int) : Option Bool → List Instruction → Option Bool → Prop
  | still (p : Option Bool) : Judged cause j p [] p
  | grant : Judged cause j (some false) [.granted] (some true)
  | deny : Judged cause j (some false) [.rejected] none
  | expire : Judged cause j (some false) [.timeout] none
  | release (b : Bool) (hCause : cause = .release j) : Judged cause j (some b) [] none

/-- A move that ends a job. -/
private theorem judged_end (hTidy : Tidy s) {job : LocalJob} (hJob : job ∈ s.jobs)
    {dropped : List Int} (hChanged : Changed s s' job.addr none dropped []) {j : Int}
    {last : List Instruction} (hOther : job.jobId ≠ j → last = [])
    (hSelf : job.jobId = j → Judged cause j (some (decide (job.nextReq = []))) last none) :
    Judged cause j (phase s j) last (phase s' j) := by
  by_cases hId : job.jobId = j
  · subst hId
    rw [phase_changed_none hJob hChanged, phase_of_mem hJob]
    exact hSelf rfl
  · rw [phase_changed_ne hChanged, hOther hId]
    · exact .still _
    · intro x hx hAddr
      rw [hTidy.addrKeys x hx job hJob hAddr]
      exact hId
    · rintro x ⟨⟩

theorem judged_move (hTidy : Tidy s) (h : Move cause s s' out) {j : Int}
    (hNew : cause.requested ≠ some j) :
    Judged cause j (phase s j) (verdicts j out) (phase s' j) := by
  cases h with
  | idle => exact .still _
  | @refuse jobId hAbsent hCause =>
      have hOther : verdicts j (cToErlang .rejected jobId) = [] := by
        have hNe : atoi jobId ≠ j := by
          rintro rfl
          exact hNew (by rw [hCause]; rfl)
        unfold cToErlang
        split
        · rfl
        · simp [verdicts, hNe]
      rw [hOther]
      exact .still _
  | reserve _ _ _ => exact .still _
  | @create _ job dial hId hAbsent hMake hCause hChanged =>
      have hNe : job.jobId ≠ j := by
        rintro rfl
        exact hNew (by rw [hCause]; rfl)
      have hPhase : phase s' j = phase s j := by
        refine phase_changed_ne hChanged ?_ ?_
        · intro x hx hAddr
          have hLt := hTidy.allocated x hx
          rw [hMake] at hAddr
          simp only [makeJob] at hAddr
          omega
        · rintro x ⟨⟩
          rw [asked_jobId]
          exact hNe
      rw [verdicts_asked j dial hId, if_neg (fun h => hNe h.2), hPhase]
      exact .still _
  | @grant _ fd job now dial hEntry hJob hChanged =>
      obtain ⟨-, x, hx, hAddr, hNext, -⟩ := hTidy.entries _ hEntry
      have hSame : x = job := hTidy.addrKeys x hx job hJob hAddr
      subst hSame
      have hId : IsInt (LocalJob.advance x fd now).jobId := by
        rw [LocalJob.advance_jobId]
        exact hTidy.ids x hx
      have hOut : verdicts j (.epollDel fd :: (asked dial (LocalJob.advance x fd now)).out) =
          verdicts j (asked dial (LocalJob.advance x fd now)).out := rfl
      rw [hOut, verdicts_asked j dial hId, LocalJob.advance_jobId]
      by_cases hj : x.jobId = j
      · subst hj
        have hAfter := phase_of_mem hChanged.mem_self
        rw [asked_jobId, asked_nextReq, LocalJob.advance_jobId] at hAfter
        rw [hAfter, phase_of_mem hx]
        simp only [hNext, decide_false, and_true]
        by_cases hDone : (LocalJob.advance x fd now).nextReq = []
        · simp only [hDone, decide_true, if_true]
          exact .grant
        · simp only [hDone, decide_false, if_false]
          exact .still _
      · rw [if_neg (fun h => hj h.2), phase_changed_ne hChanged]
        · exact .still _
        · intro y hy hAddr
          rw [hTidy.addrKeys y hy x hx hAddr]
          exact hj
        · rintro y ⟨⟩
          rw [asked_jobId, LocalJob.advance_jobId]
          exact hj
  | @reject _ fd job hEntry hJob hChanged =>
      obtain ⟨-, x, hx, hAddr, hNext, -⟩ := hTidy.entries _ hEntry
      rw [hTidy.addrKeys x hx job hJob hAddr] at hNext
      rw [verdicts_append, verdicts_released, List.nil_append,
        verdicts_toErlang j .rejected (hTidy.ids job hJob) (by decide)]
      refine judged_end hTidy hJob hChanged (fun h => if_neg h) fun h => ?_
      simp only [h, if_true, hNext, decide_false]
      exact .deny
  | @release _ job hJob hCause hChanged =>
      rw [verdicts_append, verdicts_tearDown, verdicts_released]
      exact judged_end hTidy hJob hChanged (fun _ => rfl) fun h => .release _ (h ▸ hCause)
  | @timeOut _ job hJob hNext hChanged =>
      rw [verdicts_append, verdicts_append, verdicts_tearDown, verdicts_released, List.nil_append,
        List.nil_append, verdicts_toErlang j .timeout (hTidy.ids job hJob) (by decide)]
      refine judged_end hTidy hJob hChanged (fun h => if_neg h) fun h => ?_
      simp only [h, if_true, hNext, decide_false]
      exact .expire

theorem Judged.told {j : Int} {p p' : Option Bool} {sofar last : List Instruction}
    (h : Judged cause j p last p') (hTold : Told p sofar) : Told p' (sofar ++ last) := by
  cases h with
  | still =>
      rw [List.append_nil]
      exact hTold
  | release b =>
      rw [List.append_nil]
      cases b with
      | false =>
          have hSofar : sofar = [] := hTold
          simp [Told, hSofar]
      | true =>
          have hSofar : sofar = [.granted] := hTold
          simp [Told, hSofar]
  | _ =>
      have hSofar : sofar = [] := hTold
      simp [Told, hSofar]

theorem told_moves (hTidy : Tidy s) (h : Moves cause s s' out) {j : Int}
    (hNew : cause.requested ≠ some j) {sofar : List Instruction}
    (hTold : Told (phase s j) sofar) : Told (phase s' j) (sofar ++ verdicts j out) := by
  induction h generalizing sofar with
  | nil s => simpa using hTold
  | cons hMove _ ih =>
      rw [verdicts_append, ← List.append_assoc]
      exact ih (hMove.tidy hTidy) ((judged_move hTidy hMove hNew).told hTold)

/-- The move that creates a job tells nothing, or that it is granted. -/
theorem told_create (h : Move cause s s' out) {j : Int} (hBefore : phase s j = none)
    (hAfter : phase s' j ≠ none) : Told (phase s' j) (verdicts j out) := by
  have hNone : ∀ {x : LocalJob}, x ∈ s.jobs → x.jobId ≠ j := fun hx => phase_eq_none.mp hBefore _ hx
  cases h with
  | idle => exact absurd hBefore hAfter
  | refuse _ _ => exact absurd hBefore hAfter
  | reserve _ _ _ => exact absurd hBefore hAfter
  | @create _ job dial hId hAbsent hMake hRequest hChanged =>
      by_cases hj : job.jobId = j
      · subst hj
        have hPhase := phase_of_mem hChanged.mem_self
        rw [asked_jobId, asked_nextReq] at hPhase
        rw [hPhase, verdicts_asked _ dial hId]
        by_cases hDone : job.nextReq = []
        · simp only [hDone, decide_true, and_self, if_true]
          rfl
        · simp only [hDone, decide_false, false_and, if_false]
          rfl
      · refine absurd ?_ hAfter
        rw [phase_changed_ne hChanged (fun x hx _ => hNone hx), ← hBefore]
        · rfl
        · rintro x ⟨⟩
          rw [asked_jobId]
          exact hj
  | @grant _ fd job now dial hEntry hJob hChanged =>
      refine absurd ?_ hAfter
      rw [phase_changed_ne hChanged (fun x hx _ => hNone hx), hBefore]
      rintro x ⟨⟩
      rw [asked_jobId, LocalJob.advance_jobId]
      exact hNone hJob
  | reject _ _ hChanged =>
      refine absurd ?_ hAfter
      rw [phase_changed_ne hChanged (fun x hx _ => hNone hx) (by rintro x ⟨⟩), hBefore]
  | release _ _ hChanged =>
      refine absurd ?_ hAfter
      rw [phase_changed_ne hChanged (fun x hx _ => hNone hx) (by rintro x ⟨⟩), hBefore]
  | timeOut _ _ hChanged =>
      refine absurd ?_ hAfter
      rw [phase_changed_ne hChanged (fun x hx _ => hNone hx) (by rintro x ⟨⟩), hBefore]

end

/-! ## One verdict per job -/

/-- A job with id `j` is in `table_localjobs`. -/
def Present (j : Int) (s : ClientState) (_ : ClientEvent) : Prop := ∃ job ∈ s.jobs, job.jobId = j

instance (j : Int) (s : ClientState) (e : ClientEvent) : Decidable (Present j s e) :=
  inferInstanceAs (Decidable (∃ job ∈ s.jobs, job.jobId = j))

theorem told_step {s : ClientState} (hTidy : Tidy s) {e : ClientEvent} (hFresh : FreshRequest s e)
    {j : Int} (hPresent : Present j s e) {sofar : List Instruction}
    (hTold : Told (phase s j) sofar) :
    Told (phase (next s e) j) (sofar ++ unsolicited j s e) := by
  cases hQuery : isQuery e with
  | true =>
      rw [next, clientStep_query hQuery, unsolicited, hQuery, if_pos rfl, List.append_nil]
      exact hTold
  | false =>
      rw [unsolicited, hQuery, if_neg Bool.false_ne_true]
      obtain ⟨job, hJob, hId⟩ := hPresent
      refine told_moves hTidy (clientStep_moves hTidy hFresh hQuery) ?_ hTold
      rw [← hId]
      exact hFresh job hJob

theorem told_run {j : Int} (window : List ClientEvent) :
    ∀ {s : ClientState} {sofar : List Instruction}, Tidy s → Meets next FreshRequest s window →
      Meets next (Present j) s window → Told (phase s j) sofar →
      Told (phase (run next s window) j) (sofar ++ told j s window) := by
  induction window with
  | nil =>
      intro s sofar _ _ _ hTold
      simpa [told] using hTold
  | cons e window ih =>
      intro s sofar hTidy hFresh hStays hTold
      rw [run_cons, told, ← List.append_assoc]
      exact ih (hTidy.step hFresh.1) hFresh.2 hStays.2
        (told_step hTidy hFresh.1 hStays.1 hTold)

theorem told_snoc (j : Int) (es : List ClientEvent) (e : ClientEvent) (s : ClientState) :
    told j s (es ++ [e]) = told j s es ++ unsolicited j (run next s es) e := by
  induction es generalizing s with
  | nil => simp [told]
  | cons f es ih => simp [told, ih]

theorem told_created {s : ClientState} (hTidy : Tidy s) {request : ClientEvent}
    (hFresh : FreshRequest s request) {j : Int} (hBefore : ∀ job ∈ s.jobs, job.jobId ≠ j)
    (hCreated : ∃ job ∈ (next s request).jobs, job.jobId = j) :
    Told (phase (next s request) j) (unsolicited j s request) := by
  obtain ⟨job, hJob, hId⟩ := hCreated
  -- only a JOB_REQUEST can have brought the job
  have hRequest : ∃ reqs, causeOf request = .request job.jobId reqs := by
    rcases origin_step hTidy hFresh job hJob with ⟨y, hy, -, hyId, -⟩ | ⟨-, reqs, hNew, -⟩
    · exact absurd (hyId.trans hId) (hBefore y hy)
    · exact ⟨reqs, hNew⟩
  obtain ⟨reqs, hNew⟩ := hRequest
  obtain ⟨instruction, timer, nodes, dial, token, tokens, rfl, hParse, -, -⟩ :=
    causeOf_eq_request hNew
  have hQuery : isQuery (.erlang instruction timer nodes dial) = false := by
    simp [isQuery, hParse]
  have hMove := clientStep_move hTidy hFresh hQuery (by rintro now ⟨⟩)
  rw [unsolicited, hQuery, if_neg Bool.false_ne_true]
  refine told_create hMove (phase_eq_none.mpr hBefore) ?_
  intro hNone
  exact phase_eq_none.mp hNone job hJob hId

theorem Told.length_le {p : Option Bool} {sofar : List Instruction} (h : Told p sofar) :
    sofar.length ≤ 1 := by
  match p, h with
  | some false, h =>
      have : sofar = [] := h
      simp [this]
  | some true, h =>
      have : sofar = [.granted] := h
      simp [this]
  | none, h => exact h

/-- A refusal or a timeout has been told only about a job that is gone. -/
theorem Told.gone {p : Option Bool} {sofar : List Instruction} (h : Told p sofar)
    (hBad : .rejected ∈ sofar ∨ .timeout ∈ sofar) : p = none := by
  match p, h with
  | some false, h =>
      have : sofar = [] := h
      simp [this] at hBad
  | some true, h =>
      have : sofar = [.granted] := h
      simp [this] at hBad
  | none, _ => rfl

/-- A job that is no longer in the owner table has left no entry behind. -/
theorem no_entry_of_gone {s : ClientState} (hTidy : Tidy s) {e : ClientEvent}
    (hFresh : FreshRequest s e) {j : Int} (hGone : ∀ x ∈ (next s e).jobs, x.jobId ≠ j)
    {job : LocalJob} (hJob : job ∈ s.jobs) (hId : job.jobId = j) :
    ∀ entry ∈ (next s e).entries, entry.job ≠ job.addr := by
  intro entry hEntry hSame
  have hTidy' : Tidy (next s e) := hTidy.step hFresh
  obtain ⟨-, x, hx, hAddr, -, -⟩ := hTidy'.entries entry hEntry
  have hxAddr : x.addr = job.addr := hAddr.trans hSame
  rcases origin_step hTidy hFresh x hx with ⟨y, hy, hyAddr, hyId, -⟩ | ⟨hNew, -⟩
  · have hEq : y = job := hTidy.addrKeys y hy job hJob (hyAddr.trans hxAddr)
    rw [hEq, hId] at hyId
    exact hGone x hx hyId.symm
  · have := hTidy.allocated job hJob
    omega

/-- **One verdict per job.**  Take the JOB_REQUEST that creates a job with id `j`
and any handlers after it, each run while the job is still in `table_localjobs`
(the last may remove it).  They tell the scheduler at most one verdict about `j`;
one that tells `JOB_DENIED` or `JOB_TIMEOUT` leaves the job in neither table; after
`JOB_GRANTED` neither of these is told; and a JOB_STATUS for the job is answered
`JOB_GRANTED` if that has been told, `WAITING` otherwise. -/
theorem one_verdict {past window : List ClientEvent} {request : ClientEvent} {j : Int}
    (hFresh : Fresh (past ++ request :: window))
    (hBefore : ∀ job ∈ (run next ClientState.init past).jobs, job.jobId ≠ j)
    (hCreated : ∃ job ∈ (run next ClientState.init (past ++ [request])).jobs, job.jobId = j)
    (hStays : Meets next (Present j) (run next ClientState.init (past ++ [request])) window) :
    (told j (run next ClientState.init past) (request :: window)).length ≤ 1 ∧
    (∀ before e after, window = before ++ e :: after →
      (.rejected ∈ unsolicited j (run next ClientState.init (past ++ request :: before)) e ∨
        .timeout ∈ unsolicited j (run next ClientState.init (past ++ request :: before)) e) →
      (∀ job ∈ (run next ClientState.init (past ++ request :: before ++ [e])).jobs,
        job.jobId ≠ j) ∧
      ∀ job ∈ (run next ClientState.init (past ++ request :: before)).jobs, job.jobId = j →
        ∀ entry ∈ (run next ClientState.init (past ++ request :: before ++ [e])).entries,
          entry.job ≠ job.addr) ∧
    (.rejected ∉ unsolicited j (run next ClientState.init past) request ∧
      .timeout ∉ unsolicited j (run next ClientState.init past) request) ∧
    (.granted ∈ told j (run next ClientState.init past) (request :: window) →
      .rejected ∉ told j (run next ClientState.init past) (request :: window) ∧
      .timeout ∉ told j (run next ClientState.init past) (request :: window)) ∧
    (∀ instruction timer nodes dial jobId, parseErlang instruction = .jobStatus jobId →
      atoi jobId = j → jobId.length ≤ 16 →
      (∃ job ∈ (run next ClientState.init (past ++ request :: window)).jobs, job.jobId = j) →
      (clientStep (run next ClientState.init (past ++ request :: window))
          (.erlang instruction timer nodes dial)).2 =
        [.toErlang
          (if .granted ∈ told j (run next ClientState.init past) (request :: window)
            then .granted else .waiting) jobId]) := by
  obtain ⟨hPast, hRest⟩ := (meets_append _ _ _).mp hFresh
  have hTidy := tidy_run hPast
  rw [run_snoc] at hCreated hStays
  have hStart := told_created hTidy hRest.1 hBefore hCreated
  have hTidy' : Tidy (next (run next ClientState.init past) request) := hTidy.step hRest.1
  -- the account of the job after any beginning of the window
  have hAccount : ∀ before after, window = before ++ after →
      Told (phase (run next ClientState.init (past ++ request :: before)) j)
        (told j (run next ClientState.init past) (request :: before)) := by
    rintro before after rfl
    rw [run_append, run_cons, told]
    exact told_run before hTidy' ((meets_append _ _ _).mp hRest.2).1
      ((meets_append _ _ _).mp hStays).1 hStart
  have hEnd := hAccount window [] (by simp)
  refine ⟨hEnd.length_le, ?_, ?_, ?_, ?_⟩
  · rintro before e after rfl hBad
    have hOne := hAccount (before ++ [e]) after (by simp)
    rw [← List.cons_append, told_snoc, ← run_append] at hOne
    have hGone := hOne.gone (by
      rcases hBad with h | h
      · exact .inl (List.mem_append_right _ h)
      · exact .inr (List.mem_append_right _ h))
    rw [← List.append_assoc] at hGone
    have hAbsent := phase_eq_none.mp hGone
    refine ⟨hAbsent, fun job hJob hId => ?_⟩
    have hWhole : Meets next FreshRequest ClientState.init
        ((past ++ request :: before) ++ e :: after) := by
      simpa [Fresh] using hFresh
    have hSplit := (meets_append _ _ _).mp hWhole
    rw [run_snoc] at hAbsent ⊢
    exact no_entry_of_gone (tidy_run hSplit.1) hSplit.2.1 hAbsent hJob hId
  · have hThere : phase (next (run next ClientState.init past) request) j ≠ none := by
      obtain ⟨job, hJob, hId⟩ := hCreated
      exact fun hNone => phase_eq_none.mp hNone job hJob hId
    exact ⟨fun h => hThere (hStart.gone (.inl h)), fun h => hThere (hStart.gone (.inr h))⟩
  · intro hGranted
    have hLen := hEnd.length_le
    match hList : told j (run next ClientState.init past) (request :: window), hLen with
    | [], _ => simp
    | [x], _ =>
        rw [hList, List.mem_singleton] at hGranted
        simp [← hGranted]
    | _ :: _ :: _, hLen => simp at hLen
  · rintro instruction timer nodes dial jobId hParse hId hShort ⟨job, hJob, hJobId⟩
    have hFind : (run next ClientState.init (past ++ request :: window)).findJob (atoi jobId) =
        some job := ClientState.findJob_eq_some.mpr ⟨hJob, hJobId.trans hId.symm⟩
    have hPhase := phase_of_mem hJob
    rw [hJobId] at hPhase
    rw [hPhase] at hEnd
    simp only [clientStep, hParse, erlangToC, hFind]
    by_cases hNext : job.nextReq = []
    · simp only [hNext, decide_true] at hEnd
      have hTold : told j (run next ClientState.init past) (request :: window) = [.granted] := hEnd
      simp [hNext, hTold, cToErlang_short hShort]
    · simp only [hNext, decide_false] at hEnd
      have hTold : told j (run next ClientState.init past) (request :: window) = [] := hEnd
      simp [hNext, hTold, cToErlang_short hShort]

/-- The rest of a run that starts as `halfGranted`: a duplicate answer on the first
connection, the answer on the second, a sweep long after. -/
def fullyGranted : List ClientEvent :=
  halfGranted.tail ++ [.line 5 "GRANTED 1001\n".toList 2 .noSocket,
    .line 6 "GRANTED 1001\n".toList 3 .noSocket, .sweep 100]

theorem one_verdict_fullyGranted :
    (told 1001 ClientState.init
        (.erlang "JOB_REQUEST 1001 @10.0.0.1:cpu:2 bad @10.0.0.2:mem:3\n".toList 0
          (tablahashCreate _) (.connected 5) :: fullyGranted)).length ≤ 1 ∧
      .granted ∈ told 1001 ClientState.init
        (.erlang "JOB_REQUEST 1001 @10.0.0.1:cpu:2 bad @10.0.0.2:mem:3\n".toList 0
          (tablahashCreate _) (.connected 5) :: fullyGranted) := by
  refine ⟨(@one_verdict [] _ _ 1001 ?_ ?_ ?_ ?_).1, by decide +kernel⟩
  · decide +kernel
  · simp [ClientState.jobs, ClientState.init]
  · decide +kernel
  · decide +kernel

end ResourceAgent.Ports.ClientRun
