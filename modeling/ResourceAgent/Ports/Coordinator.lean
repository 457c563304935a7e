import ResourceAgent.Ports.ClientShape
import ResourceAgent.Ports.Replacement
import ResourceAgent.Ports.Scheduler

/-!
# The coordinator's map of jobs

`coordinator_loop` keeps the processes of the jobs under their JobIds.  A process enters
the map with its request and leaves it when the coordinator handles its `finished`;
`msg_to_job` crashes on a JobId that is not there.  So no verdict about a job may reach
the coordinator after its `finished`: whatever could still cause one has to be over by
then (`Settled`).  A denied job sends no `finished` and stays in the map.

Two requests for one JobId may reach the agent, and the second one replaces the job of the
first, which must not have a request in flight then: its index entry would lead to freed
memory.  What is needed of the agent is that it speaks only of a job it is asked about, or of
one that waits or has a request in flight (`Speaks`).
-/

namespace ResourceAgent.Ports.Coordinator

open ResourceAgent.Ports.HashTable
open ResourceAgent.Ports.Records
open ResourceAgent.Ports.Wire
open ResourceAgent.Ports.Client
open ResourceAgent.Ports.ClientRun
open ResourceAgent.Ports.JobRequest
open ResourceAgent.Ports.Replacement
open ResourceAgent.Ports.Scheduler hiding requests
open ResourceAgent.Ports.Outcomes
open ResourceAgent.Ports.ClientShape
open ResourceAgent.Verified.CText
open ResourceAgent.Verified.Runs

/-! ## Of which jobs the agent speaks -/

/-- The agent has a job of this id that waits for a resource or has a request in flight. -/
def Speaks (s : ClientState) (j : Int) : Prop :=
  ∃ job ∈ s.jobs, job.jobId = j ∧ (job.nextReq ≠ [] ∨ InFlight s job)

instance (s : ClientState) (j : Int) : Decidable (Speaks s j) :=
  inferInstanceAs (Decidable (∃ job ∈ s.jobs, job.jobId = j ∧ (job.nextReq ≠ [] ∨ InFlight s job)))

section

variable {s s' : ClientState} {j : Int}

theorem Speaks.mono (h : Speaks s' j) (hJobs : ∀ x ∈ s'.jobs, x ∈ s.jobs)
    (hEntries : ∀ e ∈ s'.entries, e ∈ s.entries) : Speaks s j := by
  obtain ⟨job, hJob, hId, hWaits | ⟨e, he, hLeads⟩⟩ := h
  · exact ⟨job, hJobs job hJob, hId, .inl hWaits⟩
  · exact ⟨job, hJobs job hJob, hId, .inr ⟨e, hEntries e he, hLeads⟩⟩

/-- Only the job that has changed can speak anew. -/
theorem Speaks.of_changed {addr : Nat} {new : Option LocalJob} {dropped : List Int}
    {added : List FdJobEntry} (hChanged : Changed s s' addr new dropped added)
    (hAdded : ∀ e ∈ added, e.job = addr) (h : Speaks s' j) :
    Speaks s j ∨ ∃ job, new = some job ∧ job.jobId = j := by
  obtain ⟨job, hJob, hId, hWaits⟩ := h
  rcases (hChanged.jobs job).mp hJob with hNew | ⟨hOld, hAddr⟩
  · exact .inr ⟨job, hNew, hId⟩
  · refine .inl ⟨job, hOld, hId, ?_⟩
    rcases hWaits with hWaits | ⟨e, he, hLeads⟩
    · exact .inl hWaits
    · rcases (hChanged.entries e).mp he with he | ⟨he, -⟩
      · exact absurd ((hLeads.symm.trans (hAdded e he))) hAddr
      · exact .inr ⟨e, he, hLeads⟩

theorem asked_added_job {dial : Dial} {job : LocalJob} {e : FdJobEntry}
    (h : e ∈ (asked dial job).added) : e.job = job.addr :=
  (asked_added h).2.1

theorem speaks_owner (hPlaced : Placed s) {fd : Int} {job : LocalJob}
    (h : s.owner fd = some job) : Speaks s job.jobId := by
  obtain ⟨hEntry, hJob⟩ := (ClientState.owner_eq_some hPlaced.addrKeys).mp h
  exact ⟨job, hJob, rfl, .inr ⟨_, hEntry, rfl⟩⟩

/-- **No job begins to speak** but the one of a JOB_REQUEST. -/
theorem Speaks.of_step (hPlaced : Placed s) {e : ClientEvent} (h : Speaks (clientStep s e).1 j) :
    Speaks s j ∨ requests e = some j := by
  cases clientStep_shape hPlaced e with
  | shrinks hShrinks _ _ _ => exact .inl (h.mono hShrinks.jobs hShrinks.entries)
  | requested job dial hStored _ _ _ _ hChanged _ =>
      have hRequest := requests_of_stored hStored
      rcases h.of_changed hChanged (fun e he => asked_added_job he) with h | ⟨x, hx, hxId⟩
      · obtain ⟨y, hy, hyId, hWaits⟩ := h
        rcases ClientState.mem_jobs_insertJob.mp hy with rfl | ⟨hOld, -⟩
        · rw [← hyId]
          exact .inr hRequest
        · exact .inl ⟨y, hOld, hyId, hWaits⟩
      · cases hx
        rw [asked_jobId] at hxId
        rw [← hxId]
        exact .inr hRequest
  | advanced fd instruction now dial job _ _ _ hOwner hChanged _ =>
      have hAddr := LocalJob.advance_addr job fd now
      rcases h.of_changed hChanged (fun e he => (asked_added_job he).trans hAddr) with
        h | ⟨x, hx, hxId⟩
      · exact .inl h
      · cases hx
        rw [asked_jobId, LocalJob.advance_jobId] at hxId
        rw [← hxId]
        exact .inl (speaks_owner hPlaced hOwner)

end

/-! ## What the agent says -/

/-- The id in a line of the scheduler that asks for an answer. -/
def answers : ClientEvent → Option Text
  | .erlang instruction _ _ _ =>
      match parseErlang instruction with
      | .jobRequest jobId _ => some jobId
      | .jobStatus jobId => some jobId
      | _ => none
  | _ => none

/-- Effects that say something about these ids only, and nothing about the nodes. -/
def Says (P : Text → Prop) (out : List Effect) : Prop :=
  (∀ instruction text, Effect.toErlang instruction text ∈ out → P text) ∧
    ∀ rest, Effect.nodes rest ∉ out

section

variable {s : ClientState} {P : Text → Prop}

theorem says_nil : Says P [] := ⟨by simp, by simp⟩

theorem Says.append {out out' : List Effect} (h : Says P out) (h' : Says P out') :
    Says P (out ++ out') := by
  constructor
  · intro instruction text hMem
    rcases List.mem_append.mp hMem with hMem | hMem
    · exact h.1 instruction text hMem
    · exact h'.1 instruction text hMem
  · intro rest hMem
    rcases List.mem_append.mp hMem with hMem | hMem
    · exact h.2 rest hMem
    · exact h'.2 rest hMem

theorem says_toErlang {instruction : Instruction} {text : Text} (h : P text) :
    Says P (cToErlang instruction text) := by
  unfold cToErlang
  split
  · exact says_nil
  · refine ⟨fun i t hMem => ?_, by simp⟩
    simp only [List.mem_singleton, Effect.toErlang.injEq] at hMem
    exact hMem.2 ▸ h

theorem says_released (s : ClientState) (job : LocalJob) : Says P (releaseResources s job).2 := by
  refine ⟨fun instruction text hMem => ?_, fun rest hMem => ?_⟩
  · obtain ⟨granted, -, hMem⟩ := List.mem_flatMap.mp hMem
    unfold releaseProvider at hMem
    split at hMem <;> simp at hMem
  · obtain ⟨granted, -, hMem⟩ := List.mem_flatMap.mp hMem
    unfold releaseProvider at hMem
    split at hMem <;> simp at hMem

theorem says_tearDown (s : ClientState) (job : LocalJob) : Says P (tearDown s job).2 := by
  unfold tearDown
  split
  · exact ⟨by simp, by simp⟩
  · exact says_nil

theorem says_ask {dial : Dial} {s : ClientState} {job : LocalJob} (h : P (itoa job.jobId)) :
    Says P (askForNextResource dial s job).2 := by
  cases hNext : job.nextReq with
  | nil =>
      simp only [askForNextResource, hNext]
      exact says_toErlang h
  | cons req rest =>
      cases dial <;> simp only [askForNextResource, hNext] <;> exact ⟨by simp, by simp⟩

theorem says_disconnect {fd : Int} (h : ∀ job, s.owner fd = some job → P (itoa job.jobId)) :
    Says P (handleOutboundDisconnect s fd).2 := by
  unfold handleOutboundDisconnect
  cases hOwner : s.owner fd with
  | none => exact says_nil
  | some job => exact (says_released _ job).append (says_toErlang (h job hOwner))

theorem says_timeOut (ids : List Int) : ∀ {s : ClientState}, (∀ id ∈ ids, P (itoa id)) →
    Says P (timeOut ids s).2 := by
  induction ids with
  | nil => exact fun _ => says_nil
  | cons jobId ids ih =>
      intro s h
      cases hFind : s.findJob jobId with
      | none =>
          simp only [timeOut, hFind]
          exact ih fun id hId => h id (List.mem_cons_of_mem _ hId)
      | some job =>
          have hId := (ClientState.findJob_eq_some.mp hFind).2
          simp only [timeOut, hFind]
          refine (((says_tearDown s job).append (says_released _ job)).append
            (says_toErlang ?_)).append (ih fun id hId => h id (List.mem_cons_of_mem _ hId))
          rw [hId]
          exact h jobId List.mem_cons_self

theorem says_line {fd : Int} {instruction : Text} {now : Int} {dial : Dial}
    (h : ∀ job, s.owner fd = some job → P (itoa job.jobId)) :
    Says P (clientStep s (.line fd instruction now dial)).2 := by
  simp only [clientStep]
  cases parseRemote instruction with
  | granted jobId =>
      simp only [clientToMyserver]
      cases hOwner : s.owner fd with
      | none => exact says_nil
      | some job =>
          dsimp only
          split
          · have hAsk : Says P (askForNextResource dial
                ((s.writeJob (LocalJob.advance job fd now)).removeEntry fd)
                (LocalJob.advance job fd now)).2 :=
              says_ask (by rw [LocalJob.advance_jobId]; exact h job hOwner)
            exact ⟨fun i t hMem => hAsk.1 i t (by simpa using hMem),
              fun rest hMem => hAsk.2 rest (by simpa using hMem)⟩
          · exact says_nil
  | reject => exact says_disconnect h
  | _ => exact says_nil

theorem says_erlang {instruction : Text} {timer : Int} {nodes : Table nodeCallbacks}
    {dial : Dial} (hNodes : parseErlang instruction ≠ .getNodes)
    (hAnswer : ∀ text, answers (.erlang instruction timer nodes dial) = some text → P text)
    (hRequest : ∀ j, requests (.erlang instruction timer nodes dial) = some j → P (itoa j)) :
    Says P (clientStep s (.erlang instruction timer nodes dial)).2 := by
  cases hParse : parseErlang instruction with
  | jobRequest jobId destinations =>
      simp only [clientStep, hParse]
      cases destinations with
      | nil => exact says_toErlang (hAnswer _ (by simp only [answers, hParse]))
      | cons token tokens =>
          exact says_ask (hRequest (atoi jobId) (by simp only [requests, hParse]))
  | jobRelease jobId =>
      simp only [clientStep, hParse, erlangToC]
      cases s.findJob (atoi jobId) with
      | none => exact says_nil
      | some job => exact (says_tearDown s job).append (says_released _ job)
  | jobStatus jobId =>
      have hJob : P jobId := hAnswer jobId (by simp only [answers, hParse])
      simp only [clientStep, hParse, erlangToC]
      cases s.findJob (atoi jobId) with
      | none => exact says_toErlang hJob
      | some job =>
          dsimp only
          split
          · exact says_toErlang hJob
          · exact says_toErlang hJob
  | getNodes => exact absurd hParse hNodes
  | ignored =>
      simp only [clientStep, hParse, erlangToC]
      exact says_nil

/-- **The agent speaks only of a job it is asked about, or of one that waits.** -/
theorem says_step (hPlaced : Placed s) {e : ClientEvent}
    (hNodes : ∀ instruction timer nodes dial, e = .erlang instruction timer nodes dial →
      parseErlang instruction ≠ .getNodes) :
    Says (fun text => answers e = some text ∨
      ∃ j, text = itoa j ∧ (Speaks s j ∨ requests e = some j)) (clientStep s e).2 := by
  have hOwned : ∀ fd job, s.owner fd = some job → answers e = some (itoa job.jobId) ∨
      ∃ j, itoa job.jobId = itoa j ∧ (Speaks s j ∨ requests e = some j) :=
    fun fd job hOwner => .inr ⟨job.jobId, rfl, .inl (speaks_owner hPlaced hOwner)⟩
  cases e with
  | erlang instruction timer nodes dial =>
      exact says_erlang (hNodes _ _ _ _ rfl) (fun text hAnswer => .inl hAnswer)
        fun j hRequest => .inr ⟨j, rfl, .inr hRequest⟩
  | line fd instruction now dial => exact says_line (hOwned fd)
  | sendRequest fd =>
      simp only [clientStep, sendRequest]
      split
      · exact says_nil
      · split
        · exact says_nil
        · exact ⟨by simp, by simp⟩
  | disconnect fd => exact says_disconnect (hOwned fd)
  | sweep now =>
      refine says_timeOut _ fun id hId => .inr ⟨id, rfl, .inl ?_⟩
      obtain ⟨job, hJob, hSame⟩ := List.mem_map.mp (List.mem_of_mem_take hId)
      obtain ⟨hJob, hExpired⟩ := List.mem_filter.mp hJob
      simp only [expired, Bool.and_eq_true, decide_eq_true_eq] at hExpired
      exact ⟨job, hJob, hSame, .inl hExpired.1⟩

end

/-! ## Jobs in the map and jobs outside of it -/

/-- No verdict about `j` is on its way to the coordinator, and nothing is left that could
bring one: no request and no heartbeat on its way to the agent, no job there that speaks. -/
structure Quiet (s : System) (j : Int) : Prop where
  replies : ∀ reply ∈ s.toCoordinator, Reply.about j reply = none
  commands : ∀ c ∈ s.toAgent, Command.about j c = none ∨ Command.about j c = some .finished
  agent : ¬ Speaks s.agent j

instance (s : System) (j : Int) : Decidable (Quiet s j) :=
  decidable_of_iff ((∀ reply ∈ s.toCoordinator, Reply.about j reply = none) ∧
      (∀ c ∈ s.toAgent, Command.about j c = none ∨ Command.about j c = some .finished) ∧
        ¬ Speaks s.agent j)
    ⟨fun h => ⟨h.1, h.2.1, h.2.2⟩, fun h => ⟨h.replies, h.commands, h.agent⟩⟩

/-- The process of a JobId in the map: if it has ended, its `finished` is the last thing it
sent and the coordinator has not handled it. -/
structure Listed (p : JobProcess) : Prop where
  born : p.state ≠ .unborn
  ends : (p.state ≠ .ended ∧ .finished ∉ p.outbox) ∨
    (p.state = .ended ∧ ∃ sent, p.outbox = sent ++ [.finished] ∧ .finished ∉ sent)

/-- The process of a JobId that is not in the map. -/
inductive Unlisted (p : JobProcess) : Prop where
  | unborn (hState : p.state = .unborn) (hOutbox : p.outbox = []) (hMailbox : p.mailbox = [])
  | starting (message : Text) (rest : List ToCoordinator) (hState : p.state = .loop)
      (hOutbox : p.outbox = .registerAndRequest message :: rest) (hRest : .finished ∉ rest)
      (hMailbox : p.mailbox = [])
  | gone (hState : p.state = .ended) (hOutbox : p.outbox = [])

structure Booked (s : System) (j : Int) : Prop where
  listed : s.jobsMap j = true → Listed (s.proc j)
  unlisted : s.jobsMap j = false → Unlisted (s.proc j) ∧ Quiet s j

section

variable {p : JobProcess}

/-- The coordinator has handled a message that is not `finished`. -/
theorem Listed.sent (h : Listed p) {m : ToCoordinator} {rest : List ToCoordinator}
    (hOutbox : p.outbox = m :: rest) (hm : m ≠ .finished) : Listed { p with outbox := rest } where
  born := h.born
  ends := by
    rcases h.ends with ⟨hState, hNone⟩ | ⟨hState, sent, hSent, hNone⟩
    · rw [hOutbox] at hNone
      exact .inl ⟨hState, fun hMem => hNone (List.mem_cons_of_mem _ hMem)⟩
    · rw [hOutbox] at hSent
      cases sent with
      | nil => exact absurd (List.cons.inj hSent).1 hm
      | cons m' sent =>
          refine .inr ⟨hState, sent, (List.cons.inj hSent).2, fun hMem => hNone ?_⟩
          exact List.mem_cons_of_mem _ hMem

/-- `finished` is the last message. -/
theorem Listed.finished (h : Listed p) {rest : List ToCoordinator}
    (hOutbox : p.outbox = .finished :: rest) : p.state = .ended ∧ rest = [] := by
  rcases h.ends with ⟨-, hNone⟩ | ⟨hState, sent, hSent, hNone⟩
  · rw [hOutbox] at hNone
    exact absurd List.mem_cons_self hNone
  · rw [hOutbox] at hSent
    cases sent with
    | nil => exact ⟨hState, (List.cons.inj hSent).2⟩
    | cons m sent =>
        rw [← (List.cons.inj hSent).1] at hNone
        exact absurd List.mem_cons_self hNone

/-- One more message before the end. -/
theorem Listed.send (h : Listed p) {state : JobState} (hState : p.state ≠ .ended)
    (hBorn : state ≠ .unborn) (hEnded : state ≠ .ended) {m : ToCoordinator} (hm : m ≠ .finished) :
    Listed { p with state := state, outbox := p.outbox ++ [m] } where
  born := hBorn
  ends := by
    rcases h.ends with ⟨-, hNone⟩ | ⟨hOver, -⟩
    · refine .inl ⟨hEnded, fun hMem => ?_⟩
      rcases List.mem_append.mp hMem with hMem | hMem
      · exact hNone hMem
      · exact hm (List.mem_singleton.mp hMem).symm
    · exact absurd hOver hState

/-- A process that takes no `denied` stays in the map. -/
theorem Listed.take (h : Listed p)
    (hUndenied : p.state = .loop → p.mailbox.head? ≠ some .denied) : Listed (takeNotice p) := by
  have hMove : ∀ {rest : List Notice} (state : JobState), p.state = .loop →
      state ≠ .unborn → state ≠ .ended → Listed { p with state := state, mailbox := rest } := by
    intro rest state hLoop hBorn hEnded
    refine ⟨hBorn, ?_⟩
    rcases h.ends with ⟨-, hNone⟩ | ⟨hOver, -⟩
    · exact .inl ⟨hEnded, hNone⟩
    · rw [hLoop] at hOver
      cases hOver
  unfold takeNotice
  split
  · exact hMove .working (by assumption) (by decide) (by decide)
  · rename_i hLoop hMail
    rw [hMail] at hUndenied
    exact absurd rfl (hUndenied hLoop)
  · exact hMove .sleeping (by assumption) (by decide) (by decide)
  · exact h

theorem Unlisted.take (h : Unlisted p) : takeNotice p = p := by
  cases h with
  | unborn hState _ _ => simp [takeNotice, hState]
  | starting message rest hState _ _ hMailbox => simp [takeNotice, hState, hMailbox]
  | gone hState _ => simp [takeNotice, hState]

/-- A process outside of the map has nothing to say, or asks to be registered. -/
theorem Unlisted.head (h : Unlisted p) {m : ToCoordinator} {rest : List ToCoordinator}
    (hOutbox : p.outbox = m :: rest) :
    p.state = .loop ∧ (∃ message, m = .registerAndRequest message) ∧ .finished ∉ rest ∧
      p.mailbox = [] := by
  cases h with
  | unborn _ hNone _ =>
      rw [hNone] at hOutbox
      cases hOutbox
  | starting message rest' hState hSome hRest hMailbox =>
      rw [hSome] at hOutbox
      obtain ⟨rfl, rfl⟩ := List.cons.inj hOutbox
      exact ⟨hState, ⟨message, rfl⟩, hRest, hMailbox⟩
  | gone _ hNone =>
      rw [hNone] at hOutbox
      cases hOutbox

end

/-! ## The ledger -/

/-- A line to the agent that names the JobId it is about. -/
def Written : Command → Prop
  | .request j message => IsInt j ∧ ∃ picks, message = jobRequestFormat j picks
  | .status j => IsInt j
  | .release j => IsInt j
  | .getNodes => True

def isNodes : Reply → Bool
  | .nodes _ => true
  | .verdict _ _ => false

/-- The GET_NODES under way and the NODES that answer them. -/
def polls (s : System) : Nat :=
  s.toAgent.count .getNodes + s.toCoordinator.countP isNodes

/-- The texts of one job process. -/
structure Worded (p : JobProcess) (j : Int) : Prop where
  isInt : p.state ≠ .unborn → IsInt j
  message : p.state ≠ .unborn → ∃ picks, p.message = jobRequestFormat j picks
  sent : ∀ message, .registerAndRequest message ∈ p.outbox →
    ∃ picks, message = jobRequestFormat j picks

/-- The map agrees with the processes and with what is under way, in every state. -/
structure Ledger (s : System) : Prop where
  placed : Placed s.agent
  alive : s.alive = true
  booked : ∀ j, Booked s j
  worded : ∀ j, Worded (s.proc j) j
  commands : ∀ c ∈ s.toAgent, Written c
  verdicts : ∀ instruction text, .verdict instruction text ∈ s.toCoordinator →
    ∃ n, text = itoa n
  polled : polls s = if s.generator = .waiting then 1 else 0
  genPid : s.generator = .waiting → s.genPid = true
  first : 1001 ≤ s.nextJobId
  unborn : ∀ j, s.nextJobId ≤ j → (s.proc j).state = .unborn

section

variable {s : System} {j : Int}

theorem Quiet.congr {s' : System} (h : Quiet s j) (hAgent : s'.agent = s.agent)
    (hCommands : ∀ c ∈ s'.toAgent, c ∈ s.toAgent ∨ Command.about j c = none ∨
      Command.about j c = some .finished)
    (hReplies : ∀ reply ∈ s'.toCoordinator, reply ∈ s.toCoordinator ∨
      Reply.about j reply = none) : Quiet s' j where
  replies reply hMem := by
    rcases hReplies reply hMem with hOld | hOther
    · exact h.replies reply hOld
    · exact hOther
  commands c hMem := by
    rcases hCommands c hMem with hOld | hOther
    · exact h.commands c hOld
    · exact hOther
  agent := by
    rw [hAgent]
    exact h.agent

theorem Booked.congr {s' : System} (h : Booked s j) (hMap : s'.jobsMap j = s.jobsMap j)
    (hProc : s'.proc j = s.proc j) (hQuiet : Quiet s j → Quiet s' j) : Booked s' j where
  listed hThere := by
    rw [hProc]
    exact h.listed (hMap ▸ hThere)
  unlisted hAbsent := by
    obtain ⟨hUnlisted, hOld⟩ := h.unlisted (hMap ▸ hAbsent)
    rw [hProc]
    exact ⟨hUnlisted, hQuiet hOld⟩

/-- A step of one job process. -/
theorem Ledger.setProc (h : Ledger s) {p : JobProcess}
    (hListed : s.jobsMap j = true → Listed p) (hUnlisted : s.jobsMap j = false → Unlisted p)
    (hWorded : Worded p j) (hUnborn : s.nextJobId ≤ j → p.state = .unborn) :
    Ledger (s.setProc j p) := by
  have hSelf : (s.setProc j p).proc j = p := Function.update_self _ _ _
  have hOther : ∀ i, i ≠ j → (s.setProc j p).proc i = s.proc i :=
    fun i hi => Function.update_of_ne hi _ _
  refine { h with booked := fun i => ?_, worded := fun i => ?_, unborn := fun i hi => ?_ }
  · have hQuiet : Quiet s i → Quiet (s.setProc j p) i :=
      fun hQuiet => ⟨hQuiet.replies, hQuiet.commands, hQuiet.agent⟩
    by_cases hi : i = j
    · subst hi
      rw [← hSelf] at hListed hUnlisted
      exact ⟨hListed, fun hMap => ⟨hUnlisted hMap, hQuiet ((h.booked i).unlisted hMap).2⟩⟩
    · exact (h.booked i).congr rfl (hOther i hi) hQuiet
  · by_cases hi : i = j
    · subst hi
      rw [hSelf]
      exact hWorded
    · rw [hOther i hi]
      exact h.worded i
  · by_cases hij : i = j
    · subst hij
      rw [hSelf]
      exact hUnborn hi
    · rw [hOther i hij]
      exact h.unborn i hi

/-- A process that goes on. -/
theorem Ledger.moves (h : Ledger s) {p : JobProcess} (hBorn : (s.proc j).state ≠ .unborn)
    (hListed : s.jobsMap j = true → Listed p) (hUnlisted : s.jobsMap j = false → Unlisted p)
    (hMessage : p.message = (s.proc j).message)
    (hOutbox : ∀ m ∈ p.outbox, m ∈ (s.proc j).outbox ∨
      ∀ message, m = .registerAndRequest message → message = (s.proc j).message) :
    Ledger (s.setProc j p) := by
  have hWorded := h.worded j
  refine h.setProc hListed hUnlisted ⟨fun _ => hWorded.isInt hBorn, fun _ => ?_, ?_⟩
    fun hNext => absurd (h.unborn j hNext) hBorn
  · rw [hMessage]
    exact hWorded.message hBorn
  · intro message hMem
    rcases hOutbox _ hMem with hOld | hOwn
    · exact hWorded.sent message hOld
    · rw [hOwn message rfl]
      exact hWorded.message hBorn

theorem Ledger.generate (h : Ledger s) (picks : Option Picks) (hNext : s.nextJobId < 2 ^ 31) :
    Ledger (schedStep s (.generate picks)) := by
  simp only [schedStep]
  split
  · rename_i hAnswered
    have hPolled : polls s = 0 := by
      rw [h.polled, hAnswered]
      rfl
    have hBooked : ∀ n i, Booked { s with generator := .idle, nextJobId := n } i :=
      fun n i => (h.booked i).congr rfl rfl fun hQuiet =>
        ⟨hQuiet.replies, hQuiet.commands, hQuiet.agent⟩
    cases picks with
    | none =>
        exact { h with
          polled := hPolled
          genPid := by rintro ⟨⟩
          booked := hBooked s.nextJobId }
    | some picks =>
        have hFirst := h.first
        have hNew := h.unborn s.nextJobId (Int.le_refl _)
        have hMap : s.jobsMap s.nextJobId ≠ true :=
          fun hMap => ((h.booked _).listed hMap).born hNew
        have hIdle : Ledger { s with generator := .idle, nextJobId := s.nextJobId + 1 } :=
          { h with
            polled := hPolled
            genPid := by rintro ⟨⟩
            first := by
              show 1001 ≤ s.nextJobId + 1
              omega
            unborn := by
              intro i hi
              have hi' : s.nextJobId + 1 ≤ i := hi
              exact h.unborn i (by omega)
            booked := hBooked (s.nextJobId + 1) }
        refine hIdle.setProc (fun hThere => absurd hThere hMap) (fun _ => ?_) ⟨?_, ?_, ?_⟩ ?_
        · exact .starting _ [] rfl rfl (by simp) rfl
        · intro _
          constructor <;> omega
        · exact fun _ => ⟨picks, rfl⟩
        · intro message hMem
          rw [List.mem_singleton] at hMem
          exact ⟨picks, ToCoordinator.registerAndRequest.inj hMem⟩
        · intro hLe
          have hLe' : s.nextJobId + 1 ≤ s.nextJobId := hLe
          omega
  · exact h

theorem Ledger.heartbeat (h : Ledger s) (j : Int) : Ledger (schedStep s (.heartbeat j)) := by
  simp only [schedStep]
  split
  · rename_i hLoop
    refine h.moves (by rw [hLoop]; decide) (fun hMap => ?_) (fun hMap => ?_) rfl ?_
    · exact ((h.booked j).listed hMap).send (by rw [hLoop]; decide) (by rw [hLoop]; decide)
        (by rw [hLoop]; decide) (by decide)
    · cases ((h.booked j).unlisted hMap).1 with
      | unborn hState _ _ =>
          rw [hLoop] at hState
          cases hState
      | starting message rest hState hOutbox hRest hMailbox =>
          refine .starting message (rest ++ [.status]) hState ?_ ?_ hMailbox
          · show (s.proc j).outbox ++ [.status] = _
            rw [hOutbox]
            rfl
          · intro hMem
            rcases List.mem_append.mp hMem with hMem | hMem
            · exact hRest hMem
            · cases List.mem_singleton.mp hMem
      | gone hState _ =>
          rw [hLoop] at hState
          cases hState
    · intro m hMem
      rcases List.mem_append.mp hMem with hMem | hMem
      · exact .inl hMem
      · rw [List.mem_singleton] at hMem
        exact .inr (by rintro message rfl; cases hMem)
  · exact h

/-- A process that has left its loop is in the map, unless it has ended. -/
theorem Ledger.inMap (h : Ledger s) (hLoop : (s.proc j).state ≠ .loop)
    (hBorn : (s.proc j).state ≠ .unborn) (hEnded : (s.proc j).state ≠ .ended) :
    s.jobsMap j = true := by
  by_contra hMap
  cases ((h.booked j).unlisted (by simpa using hMap)).1 with
  | unborn hState _ _ => exact hBorn hState
  | starting _ _ hState _ _ _ => exact hLoop hState
  | gone hState _ => exact hEnded hState

theorem Ledger.wake (h : Ledger s) (j : Int) : Ledger (schedStep s (.wake j)) := by
  simp only [schedStep]
  split
  · rename_i hState
    have hMap := h.inMap (by rw [hState]; decide) (by rw [hState]; decide) (by rw [hState]; decide)
    refine h.moves (by rw [hState]; decide) (fun _ => ?_) (fun hNo => ?_) rfl ?_
    · exact ((h.booked j).listed hMap).send (by rw [hState]; decide) (by decide) (by decide)
        (by rintro ⟨⟩)
    · rw [hMap] at hNo
      cases hNo
    · intro m hMem
      rcases List.mem_append.mp hMem with hMem | hMem
      · exact .inl hMem
      · rw [List.mem_singleton] at hMem
        refine .inr fun message hSame => ?_
        rw [hMem] at hSame
        exact (ToCoordinator.registerAndRequest.inj hSame).symm
  · exact h

theorem Ledger.finish (h : Ledger s) (j : Int) : Ledger (schedStep s (.finish j)) := by
  simp only [schedStep]
  split
  · rename_i hState
    have hMap := h.inMap (by rw [hState]; decide) (by rw [hState]; decide) (by rw [hState]; decide)
    refine h.moves (by rw [hState]; decide) (fun _ => ?_) (fun hNo => ?_) rfl ?_
    · refine ⟨by rintro ⟨⟩, .inr ⟨rfl, (s.proc j).outbox, rfl, ?_⟩⟩
      rcases ((h.booked j).listed hMap).ends with ⟨-, hNone⟩ | ⟨hOver, -⟩
      · exact hNone
      · rw [hState] at hOver
        cases hOver
    · rw [hMap] at hNo
      cases hNo
    · intro m hMem
      rcases List.mem_append.mp hMem with hMem | hMem
      · exact .inl hMem
      · rw [List.mem_singleton] at hMem
        exact .inr (by rintro message rfl; cases hMem)
  · exact h

theorem takeNotice_outbox (p : JobProcess) : (takeNotice p).outbox = p.outbox := by
  unfold takeNotice
  split <;> rfl

theorem takeNotice_message (p : JobProcess) : (takeNotice p).message = p.message := by
  unfold takeNotice
  split <;> rfl

theorem Ledger.take (h : Ledger s) (j : Int)
    (hUndenied : (s.proc j).state = .loop → (s.proc j).mailbox.head? ≠ some .denied) :
    Ledger (schedStep s (.take j)) := by
  show Ledger (s.setProc j (takeNotice (s.proc j)))
  by_cases hBorn : (s.proc j).state = .unborn
  · have hSame : takeNotice (s.proc j) = s.proc j := by
      simp [takeNotice, hBorn]
    rw [hSame]
    exact h.setProc (h.booked j).listed (fun hMap => ((h.booked j).unlisted hMap).1) (h.worded j)
      (h.unborn j)
  · refine h.moves hBorn (fun hMap => ((h.booked j).listed hMap).take hUndenied) (fun hMap => ?_)
      (takeNotice_message _) fun m hMem => ?_
    · have hUnlisted := ((h.booked j).unlisted hMap).1
      rw [hUnlisted.take]
      exact hUnlisted
    · rw [takeNotice_outbox] at hMem
      exact .inl hMem

/-- A process that has sent something exists. -/
theorem Ledger.born (h : Ledger s) {m : ToCoordinator} {rest : List ToCoordinator}
    (hOutbox : (s.proc j).outbox = m :: rest) : (s.proc j).state ≠ .unborn := by
  cases hMap : s.jobsMap j with
  | true => exact ((h.booked j).listed hMap).born
  | false =>
      rw [(((h.booked j).unlisted hMap).1.head hOutbox).1]
      decide

/-- The coordinator handles a message of the process `j` and sends a line about it. -/
theorem Ledger.handled (h : Ledger s) {m : ToCoordinator} {rest : List ToCoordinator}
    (hOutbox : (s.proc j).outbox = m :: rest) {c : Command} (hWritten : Written c)
    (hNodes : c ≠ .getNodes) (hAbout : ∀ i, i ≠ j → Command.about i c = none) {map : Int → Bool}
    (hMap : ∀ i, i ≠ j → map i = s.jobsMap i)
    (hListed : map j = true → Listed { s.proc j with outbox := rest })
    (hUnlisted : map j = false → Unlisted { s.proc j with outbox := rest } ∧
      Quiet { s with toAgent := s.toAgent ++ [c] } j) :
    Ledger { s.setProc j { s.proc j with outbox := rest } with
      toAgent := s.toAgent ++ [c]
      jobsMap := map } := by
  have hBorn := h.born hOutbox
  have hSelf : (s.setProc j { s.proc j with outbox := rest }).proc j =
      { s.proc j with outbox := rest } := Function.update_self _ _ _
  have hOther : ∀ i, i ≠ j →
      (s.setProc j { s.proc j with outbox := rest }).proc i = s.proc i :=
    fun i hi => Function.update_of_ne hi _ _
  refine ⟨h.placed, h.alive, fun i => ?_, fun i => ?_, fun c' hMem => ?_, h.verdicts, ?_, h.genPid,
    h.first, fun i hi => ?_⟩
  · by_cases hi : i = j
    · subst hi
      rw [← hSelf] at hListed hUnlisted
      refine ⟨hListed, fun hAbsent => ⟨(hUnlisted hAbsent).1, ?_⟩⟩
      obtain ⟨hReplies, hCommands, hAgent⟩ := (hUnlisted hAbsent).2
      exact ⟨hReplies, hCommands, hAgent⟩
    · refine (h.booked i).congr (hMap i hi) (hOther i hi) fun hQuiet => ?_
      refine hQuiet.congr rfl (fun c' hMem => ?_) fun _ hMem => .inl hMem
      rcases List.mem_append.mp hMem with hMem | hMem
      · exact .inl hMem
      · rw [List.mem_singleton.mp hMem]
        exact .inr (.inl (hAbout i hi))
  · by_cases hi : i = j
    · subst hi
      have hWorded := h.worded i
      show Worded ((s.setProc i { s.proc i with outbox := rest }).proc i) i
      rw [hSelf]
      refine ⟨hWorded.isInt, hWorded.message, fun message hMem => hWorded.sent message ?_⟩
      rw [hOutbox]
      exact List.mem_cons_of_mem _ hMem
    · show Worded ((s.setProc j { s.proc j with outbox := rest }).proc i) i
      rw [hOther i hi]
      exact h.worded i
  · rcases List.mem_append.mp hMem with hMem | hMem
    · exact h.commands c' hMem
    · rw [List.mem_singleton.mp hMem]
      exact hWritten
  · show (s.toAgent ++ [c]).count .getNodes + s.toCoordinator.countP isNodes = _
    rw [List.count_append, List.count_singleton, if_neg (by simpa using hNodes), Nat.add_zero]
    exact h.polled
  · show ((s.setProc j { s.proc j with outbox := rest }).proc i).state = .unborn
    by_cases hij : i = j
    · subst hij
      exact absurd (h.unborn i hi) hBorn
    · rw [hOther i hij]
      exact h.unborn i hi

theorem Ledger.fromJob (h : Ledger s) (j : Int)
    (hQuiet : (s.proc j).outbox.head? = some .finished → Quiet s j) :
    Ledger (schedStep s (.fromJob j)) := by
  simp only [schedStep, handleJob, h.alive, if_true]
  cases hOutbox : (s.proc j).outbox with
  | nil => exact h
  | cons m rest =>
      have hInt := (h.worded j).isInt (h.born hOutbox)
      have hUpdate : ∀ b i, i ≠ j → Function.update s.jobsMap j b i = s.jobsMap i :=
        fun b i hi => Function.update_of_ne hi _ _
      have hSelf : ∀ b, Function.update s.jobsMap j b j = b := fun b => Function.update_self _ _ _
      cases m with
      | registerAndRequest message =>
          have hSent := (h.worded j).sent message (by rw [hOutbox]; exact List.mem_cons_self)
          refine h.handled hOutbox (c := .request j message) ⟨hInt, hSent⟩ (by rintro ⟨⟩)
            (fun i hi => by simp [Command.about, Ne.symm hi]) (hUpdate true) (fun _ => ?_) ?_
          · cases hMap : s.jobsMap j with
            | true => exact ((h.booked j).listed hMap).sent hOutbox (by rintro ⟨⟩)
            | false =>
                obtain ⟨hLoop, -, hRest, -⟩ := ((h.booked j).unlisted hMap).1.head hOutbox
                have hNot : ∀ state, state ≠ .loop → (s.proc j).state ≠ state := by
                  intro state hState hSame
                  exact hState (hSame.symm.trans hLoop)
                exact ⟨hNot _ (by decide), .inl ⟨hNot _ (by decide), hRest⟩⟩
          · intro hAbsent
            cases (hSelf true).symm.trans hAbsent
      | status =>
          refine h.handled hOutbox (c := .status j) hInt (by rintro ⟨⟩)
            (fun i hi => by simp [Command.about, Ne.symm hi]) (fun _ _ => rfl) (fun hMap => ?_)
            fun hMap => ?_
          · exact ((h.booked j).listed hMap).sent hOutbox (by rintro ⟨⟩)
          · obtain ⟨-, ⟨message, hRegister⟩, -⟩ := ((h.booked j).unlisted hMap).1.head hOutbox
            cases hRegister
      | finished =>
          have hMap : s.jobsMap j = true := by
            by_contra hMap
            obtain ⟨-, ⟨message, hRegister⟩, -⟩ :=
              ((h.booked j).unlisted (by simpa using hMap)).1.head hOutbox
            cases hRegister
          obtain ⟨hEnded, hRest⟩ := ((h.booked j).listed hMap).finished hOutbox
          refine h.handled hOutbox (c := .release j) hInt (by rintro ⟨⟩)
            (fun i hi => by simp [Command.about, Ne.symm hi]) (hUpdate false) ?_ (fun _ => ⟨?_, ?_⟩)
          · intro hThere
            cases (hSelf false).symm.trans hThere
          · exact .gone hEnded hRest
          · refine (hQuiet (by rw [hOutbox]; rfl)).congr rfl (fun c hMem => ?_)
              fun _ hMem => .inl hMem
            rcases List.mem_append.mp hMem with hMem | hMem
            · exact .inl hMem
            · rw [List.mem_singleton.mp hMem]
              exact .inr (.inr (by simp [Command.about]))

theorem Ledger.ask (h : Ledger s) : Ledger (schedStep s .ask) := by
  simp only [schedStep]
  split
  · rename_i hIdle
    refine { h with
      booked := fun i => (h.booked i).congr rfl rfl fun hQuiet =>
        ⟨hQuiet.replies, hQuiet.commands, hQuiet.agent⟩
      polled := ?_
      genPid := by rintro ⟨⟩ }
    have hPolled := h.polled
    rw [hIdle] at hPolled
    exact hPolled
  · exact h

theorem Ledger.fromGenerator (h : Ledger s) : Ledger (schedStep s .fromGenerator) := by
  simp only [schedStep]
  split
  · rename_i hAsking
    refine { h with
      booked := fun i => (h.booked i).congr rfl rfl fun hQuiet => ?_
      commands := fun c hMem => ?_
      polled := ?_
      genPid := fun _ => rfl }
    · refine hQuiet.congr rfl (fun c hMem => ?_) fun _ hMem => .inl hMem
      rcases List.mem_append.mp hMem with hMem | hMem
      · exact .inl hMem
      · rw [List.mem_singleton.mp hMem]
        exact .inr (.inl rfl)
    · rcases List.mem_append.mp hMem with hMem | hMem
      · exact h.commands c hMem
      · rw [List.mem_singleton.mp hMem]
        trivial
    · have hPolled := h.polled
      rw [hAsking.2, if_neg (by decide), polls] at hPolled
      show (s.toAgent ++ [Command.getNodes]).count .getNodes +
        s.toCoordinator.countP isNodes = 1
      rw [List.count_append, List.count_singleton_self]
      omega
  · exact h

/-- The line the coordinator handles next is one it can handle. -/
theorem Ledger.verdict (h : Ledger s) {instruction : Instruction} {text : Text} {rest : List Reply}
    (hReplies : s.toCoordinator = .verdict instruction text :: rest)
    (hNotice : noticeOf instruction ≠ none) :
    ∃ j, listToInteger text = some j ∧ s.jobsMap j = true := by
  obtain ⟨n, rfl⟩ := h.verdicts instruction text (by rw [hReplies]; exact List.mem_cons_self)
  refine ⟨n, listToInteger_itoa n, ?_⟩
  by_contra hMap
  have hQuiet := ((h.booked n).unlisted (by simpa using hMap)).2
  have hNone := hQuiet.replies (.verdict instruction (itoa n))
    (by rw [hReplies]; exact List.mem_cons_self)
  simp only [Reply.about, listToInteger_itoa, if_true] at hNone
  exact hNotice hNone

theorem Ledger.nodes (h : Ledger s) {text : Text} {rest : List Reply}
    (hReplies : s.toCoordinator = .nodes text :: rest) :
    s.generator = .waiting ∧ s.genPid = true := by
  have hPolled := h.polled
  rw [polls, hReplies, List.countP_cons_of_pos rfl] at hPolled
  by_cases hWaiting : s.generator = .waiting
  · exact ⟨hWaiting, h.genPid hWaiting⟩
  · rw [if_neg hWaiting] at hPolled
    omega

/-- The coordinator has handled a line that is not NODES. -/
theorem Ledger.dropReply (h : Ledger s) {r : Reply} {rest : List Reply}
    (hReplies : s.toCoordinator = r :: rest) (hNodes : isNodes r = false) :
    Ledger { s with toCoordinator := rest } := by
  have hMem : ∀ r' ∈ rest, r' ∈ s.toCoordinator := by
    intro r' hMem
    rw [hReplies]
    exact List.mem_cons_of_mem _ hMem
  refine { h with
    booked := fun i => (h.booked i).congr rfl rfl fun hQuiet =>
      ⟨fun r' hr' => hQuiet.replies r' (hMem r' hr'), hQuiet.commands, hQuiet.agent⟩
    verdicts := fun instruction text hText => h.verdicts instruction text (hMem _ hText)
    polled := ?_ }
  have hPolled := h.polled
  rw [polls, hReplies, List.countP_cons_of_neg (by rw [hNodes]; decide)] at hPolled
  exact hPolled

theorem Ledger.fromAgent (h : Ledger s) : Ledger (schedStep s .fromAgent) := by
  show Ledger (handleAgent s)
  unfold handleAgent
  rw [if_pos h.alive]
  cases hReplies : s.toCoordinator with
  | nil => exact h
  | cons r rest =>
      cases r with
      | nodes text =>
          obtain ⟨hWaiting, hPid⟩ := h.nodes hReplies
          dsimp only
          rw [if_pos hPid]
          have hMem : ∀ r' ∈ rest, r' ∈ s.toCoordinator := by
            intro r' hMem
            rw [hReplies]
            exact List.mem_cons_of_mem _ hMem
          refine { h with
            booked := fun i => (h.booked i).congr rfl rfl fun hQuiet =>
              ⟨fun r' hr' => hQuiet.replies r' (hMem r' hr'), hQuiet.commands, hQuiet.agent⟩
            verdicts := fun instruction text hText => h.verdicts instruction text (hMem _ hText)
            polled := ?_
            genPid := by rintro ⟨⟩ }
          have hPolled := h.polled
          rw [hWaiting, polls, hReplies, List.countP_cons_of_pos rfl] at hPolled
          exact Nat.succ.inj hPolled
      | verdict instruction text =>
          have hDrop := h.dropReply hReplies rfl
          dsimp only
          cases hNotice : noticeOf instruction with
          | none => exact hDrop
          | some notice =>
              obtain ⟨j, hId, hMap⟩ := h.verdict hReplies (by rw [hNotice]; rintro ⟨⟩)
              simp only [hId]
              rw [if_pos hMap]
              have hListed := (h.booked j).listed hMap
              refine hDrop.moves (j := j) hListed.born (fun _ => ?_) (fun hNo => ?_) rfl
                fun m hm => ?_
              · exact ⟨hListed.born, hListed.ends⟩
              · cases hMap.symm.trans hNo
              · exact .inl hm

end

/-! ## The agent's steps -/

section

variable {s : System} {j : Int}

theorem mem_repliesOf_verdict {out : List Effect} {instruction : Instruction} {text : Text}
    (h : .verdict instruction text ∈ repliesOf out) : Effect.toErlang instruction text ∈ out := by
  obtain ⟨e, he, hReply⟩ := List.mem_filterMap.mp h
  cases e with
  | toErlang i t =>
      cases hReply
      exact he
  | _ => cases hReply

theorem countP_repliesOf {P : Text → Prop} {out : List Effect} (h : Says P out) :
    (repliesOf out).countP isNodes = 0 := by
  refine List.countP_eq_zero.mpr fun r hr => ?_
  cases r with
  | verdict i t => exact Bool.false_ne_true
  | nodes rest =>
      obtain ⟨e, he, hReply⟩ := List.mem_filterMap.mp hr
      cases e with
      | nodes text => exact absurd he (h.2 text)
      | _ => cases hReply

/-- The agent runs a handler.  What it is asked about is in the map. -/
theorem Ledger.runAgent (h : Ledger s) {e : ClientEvent}
    (hNodes : ∀ instruction timer nodes dial, e = .erlang instruction timer nodes dial →
      parseErlang instruction ≠ .getNodes)
    (hAnswers : ∀ text, answers e = some text → ∃ n, text = itoa n ∧ s.jobsMap n = true)
    (hRequests : ∀ n, requests e = some n → s.jobsMap n = true) : Ledger (s.runAgent e) := by
  have hSays := says_step h.placed hNodes
  -- whatever is said is about a job of the map
  have hAbout : ∀ instruction text, .verdict instruction text ∈ repliesOf (clientStep s.agent e).2 →
      ∃ n, text = itoa n ∧ s.jobsMap n = true := by
    intro instruction text hMem
    rcases hSays.1 instruction text (mem_repliesOf_verdict hMem) with hAnswer | ⟨n, hText, hWhy⟩
    · exact hAnswers text hAnswer
    · refine ⟨n, hText, ?_⟩
      rcases hWhy with hSpeaks | hRequest
      · by_contra hMap
        exact ((h.booked n).unlisted (by simpa using hMap)).2.agent hSpeaks
      · exact hRequests n hRequest
  refine { h with
    placed := placed_step h.placed e
    booked := fun i => ⟨(h.booked i).listed, fun hMap => ⟨((h.booked i).unlisted hMap).1, ?_⟩⟩
    verdicts := fun instruction text hMem => ?_
    polled := ?_ }
  · have hQuiet := ((h.booked i).unlisted hMap).2
    refine ⟨fun r hr => ?_, hQuiet.commands, fun hSpeaks => ?_⟩
    · rcases List.mem_append.mp hr with hr | hr
      · exact hQuiet.replies r hr
      · cases r with
        | nodes text => rfl
        | verdict instruction text =>
            obtain ⟨n, rfl, hThere⟩ := hAbout instruction text hr
            have hOther : n ≠ i := by
              rintro rfl
              cases hThere.symm.trans hMap
            simp [Reply.about, listToInteger_itoa, hOther]
    · rcases Speaks.of_step h.placed hSpeaks with hOld | hRequest
      · exact hQuiet.agent hOld
      · cases (hRequests i hRequest).symm.trans hMap
  · rcases List.mem_append.mp hMem with hMem | hMem
    · exact h.verdicts instruction text hMem
    · obtain ⟨n, hText, -⟩ := hAbout instruction text hMem
      exact ⟨n, hText⟩
  · show s.toAgent.count .getNodes +
      (s.toCoordinator ++ repliesOf (clientStep s.agent e).2).countP isNodes = _
    rw [List.countP_append, countP_repliesOf hSays, Nat.add_zero]
    exact h.polled

theorem Ledger.agentRuns (h : Ledger s) (e : ClientEvent) :
    Ledger (schedStep s (.agentRuns e)) := by
  cases e with
  | erlang _ _ _ _ => exact h
  | _ => exact h.runAgent (by rintro _ _ _ _ ⟨⟩) (by rintro _ ⟨⟩) (by rintro _ ⟨⟩)

/-- The agent has read a line that is not GET_NODES. -/
theorem Ledger.dropCommand (h : Ledger s) {c : Command} {rest : List Command}
    (hLine : s.toAgent = c :: rest) (hNodes : c ≠ .getNodes) :
    Ledger { s with toAgent := rest } := by
  have hMem : ∀ c' ∈ rest, c' ∈ s.toAgent := by
    intro c' hMem
    rw [hLine]
    exact List.mem_cons_of_mem _ hMem
  refine { h with
    booked := fun i => (h.booked i).congr rfl rfl fun hQuiet =>
      ⟨hQuiet.replies, fun c' hc' => hQuiet.commands c' (hMem c' hc'), hQuiet.agent⟩
    commands := fun c' hc' => h.commands c' (hMem c' hc')
    polled := ?_ }
  have hPolled := h.polled
  rw [polls, hLine, List.count_cons_of_ne hNodes] at hPolled
  exact hPolled

/-- A line that asks the agent something is about a job of the map. -/
theorem Ledger.asksMapped (h : Ledger s) {c : Command} {rest : List Command}
    (hLine : s.toAgent = c :: rest) {m : ToCoordinator} (hAbout : Command.about j c = some m)
    (hm : m ≠ .finished) : s.jobsMap j = true := by
  by_contra hMap
  have hQuiet := ((h.booked j).unlisted (by simpa using hMap)).2
  rcases hQuiet.commands c (by rw [hLine]; exact List.mem_cons_self) with hNone | hFinished
  · rw [hAbout] at hNone
    cases hNone
  · rw [hAbout] at hFinished
    exact hm (Option.some.inj hFinished)

theorem Ledger.runLine (h : Ledger s) {line : Text} (hNodes : parseErlang line ≠ .getNodes)
    (hAsk : ∀ text, (∃ destinations, parseErlang line = .jobRequest text destinations) ∨
      parseErlang line = .jobStatus text → ∃ n, IsInt n ∧ text = itoa n ∧ s.jobsMap n = true)
    (timer : Int) (nodes : Table nodeCallbacks) (dial : Dial) :
    Ledger (s.runAgent (.erlang line timer nodes dial)) := by
  refine h.runAgent ?_ ?_ ?_
  · intro instruction _ _ _ hSame
    rw [← (ClientEvent.erlang.inj hSame).1]
    exact hNodes
  · intro text hText
    simp only [answers] at hText
    split at hText
    · rename_i hParse
      cases hText
      obtain ⟨n, -, hn⟩ := hAsk _ (.inl ⟨_, hParse⟩)
      exact ⟨n, hn⟩
    · rename_i hParse
      cases hText
      obtain ⟨n, -, hn⟩ := hAsk _ (.inr hParse)
      exact ⟨n, hn⟩
    · cases hText
  · intro i hi
    simp only [requests] at hi
    split at hi
    · rename_i hParse
      obtain ⟨n, hInt, rfl, hMap⟩ := hAsk _ (.inl ⟨_, hParse⟩)
      rw [atoi_itoa hInt] at hi
      exact Option.some.inj hi ▸ hMap
    · cases hi

/-- GET_NODES is answered at once, and nothing else is. -/
theorem Ledger.readsNodes (h : Ledger s) {rest : List Command}
    (hLine : s.toAgent = .getNodes :: rest) (timer : Int) (nodes : Table nodeCallbacks)
    (dial : Dial) :
    Ledger ({ s with toAgent := rest }.runAgent
      (.erlang Command.getNodes.line timer nodes dial)) := by
  have hParse : parseErlang Command.getNodes.line = .getNodes := by decide
  have hStep : clientStep s.agent (.erlang Command.getNodes.line timer nodes dial) =
      (s.agent, [.nodes (getNodesInstance nodes)]) := by
    simp only [clientStep, hParse, erlangToC]
  have hMem : ∀ c ∈ rest, c ∈ s.toAgent := by
    intro c hMem
    rw [hLine]
    exact List.mem_cons_of_mem _ hMem
  simp only [System.runAgent, hStep]
  refine { h with
    booked := fun i => (h.booked i).congr rfl rfl fun hQuiet => ?_
    commands := fun c hc => h.commands c (hMem c hc)
    verdicts := fun instruction text hText => ?_
    polled := ?_ }
  · refine hQuiet.congr rfl (fun c hc => .inl (hMem c hc)) fun r hr => ?_
    rcases List.mem_append.mp hr with hr | hr
    · exact .inl hr
    · rw [List.mem_singleton.mp hr]
      exact .inr rfl
  · rcases List.mem_append.mp hText with hText | hText
    · exact h.verdicts instruction text hText
    · cases List.mem_singleton.mp hText
  · have hPolled := h.polled
    rw [polls, hLine, List.count_cons_self] at hPolled
    show rest.count .getNodes +
      (s.toCoordinator ++ [Reply.nodes (getNodesInstance nodes)]).countP isNodes =
        if s.generator = .waiting then 1 else 0
    rw [List.countP_append, ← hPolled]
    show rest.count .getNodes + (s.toCoordinator.countP isNodes + 1) = _
    omega

theorem Ledger.agentReads (h : Ledger s) (timer : Int) (nodes : Table nodeCallbacks)
    (dial : Dial) : Ledger (schedStep s (.agentReads timer nodes dial)) := by
  simp only [schedStep]
  cases hLine : s.toAgent with
  | nil => exact h
  | cons c rest =>
      have hWritten := h.commands c (by rw [hLine]; exact List.mem_cons_self)
      dsimp only
      cases c with
      | request j message =>
          obtain ⟨hInt, picks, hMessage⟩ := hWritten
          have hAbout : Command.about j (.request j message) =
              some (.registerAndRequest message) := if_pos rfl
          have hMap := h.asksMapped hLine hAbout (by rintro ⟨⟩)
          have hParse : parseErlang (Command.request j message).line = .jobRequest (itoa j)
              ((wanted picks).map fun type => resourceToString type (picks type)) := by
            rw [← parseErlang_jobRequestFormat hInt picks, ← hMessage]
            rfl
          refine (h.dropCommand hLine (by rintro ⟨⟩)).runLine ?_ ?_ timer nodes dial
          · rw [hParse]
            intro hSame
            cases hSame
          · intro text hText
            rw [hParse] at hText
            rcases hText with ⟨_, hSame⟩ | hSame
            · exact ⟨j, hInt, (ErlangCommand.jobRequest.inj hSame).1.symm, hMap⟩
            · cases hSame
      | status j =>
          have hAbout : Command.about j (.status j) = some .status := if_pos rfl
          have hMap := h.asksMapped hLine hAbout (by rintro ⟨⟩)
          have hParse : parseErlang (Command.status j).line = .jobStatus (itoa j) :=
            parseErlang_statusLine hWritten
          refine (h.dropCommand hLine (by rintro ⟨⟩)).runLine ?_ ?_ timer nodes dial
          · rw [hParse]
            intro hSame
            cases hSame
          · intro text hText
            rw [hParse] at hText
            rcases hText with ⟨_, hSame⟩ | hSame
            · cases hSame
            · exact ⟨j, hWritten, (ErlangCommand.jobStatus.inj hSame).symm, hMap⟩
      | release j =>
          have hParse : parseErlang (Command.release j).line = .jobRelease (itoa j) :=
            parseErlang_finishedLine hWritten
          refine (h.dropCommand hLine (by rintro ⟨⟩)).runLine ?_ ?_ timer nodes dial
          · rw [hParse]
            intro hSame
            cases hSame
          · intro text hText
            rw [hParse] at hText
            rcases hText with ⟨_, hSame⟩ | hSame <;> cases hSame
      | getNodes => exact h.readsNodes hLine timer nodes dial

end

/-! ## The coordinator finds every job it is told about -/

/-- JobIds fit in an `int`, no process takes a `denied`, when the coordinator handles
`finished` all is quiet about that job, and the agent replaces no job with a request in
flight. -/
def Settled (s : System) : Event → Prop
  | .generate _ => s.nextJobId < 2 ^ 31
  | .take j => (s.proc j).state = .loop → (s.proc j).mailbox.head? ≠ some .denied
  | .fromJob j => (s.proc j).outbox.head? = some .finished → Quiet s j
  | .agentReads _ _ _ => ∀ c ∈ s.toAgent.head?, ReplacesIdle s.agent c.line
  | _ => True

instance (s : System) : ∀ e, Decidable (Settled s e)
  | .generate _ => inferInstanceAs (Decidable (s.nextJobId < 2 ^ 31))
  | .take j =>
      inferInstanceAs (Decidable ((s.proc j).state = .loop →
        (s.proc j).mailbox.head? ≠ some .denied))
  | .fromJob j =>
      inferInstanceAs (Decidable ((s.proc j).outbox.head? = some .finished → Quiet s j))
  | .ask => isTrue trivial
  | .heartbeat _ => isTrue trivial
  | .wake _ => isTrue trivial
  | .finish _ => isTrue trivial
  | .fromGenerator => isTrue trivial
  | .fromAgent => isTrue trivial
  | .agentReads _ _ _ =>
      inferInstanceAs (Decidable (∀ c ∈ s.toAgent.head?, ReplacesIdle s.agent c.line))
  | .agentRuns _ => isTrue trivial

/-- A verdict that the coordinator handles is about a key of the map, and NODES is handled
while `GenPid` is a pid. -/
def Expected (s : System) : Event → Prop
  | .fromAgent =>
      match s.toCoordinator with
      | .verdict instruction text :: _ =>
          noticeOf instruction ≠ none → ∃ j, listToInteger text = some j ∧ s.jobsMap j = true
      | .nodes _ :: _ => s.genPid = true
      | [] => True
  | _ => True

/-- The coordinator runs, and its map keeps no process that has terminated, once its
`finished`, if it sent one, has been handled. -/
def UpToDate (s : System) : Prop :=
  s.alive = true ∧
    ∀ j, (s.proc j).state = .ended → .finished ∉ (s.proc j).outbox → s.jobsMap j = false

section

variable {s : System}

theorem Ledger.step (h : Ledger s) {e : Event} (hSettled : Settled s e) :
    Ledger (schedStep s e) := by
  cases e with
  | ask => exact h.ask
  | generate picks => exact h.generate picks hSettled
  | heartbeat j => exact h.heartbeat j
  | take j => exact h.take j hSettled
  | wake j => exact h.wake j
  | finish j => exact h.finish j
  | fromJob j => exact h.fromJob j hSettled
  | fromGenerator => exact h.fromGenerator
  | fromAgent => exact h.fromAgent
  | agentReads timer nodes dial => exact h.agentReads timer nodes dial
  | agentRuns e => exact h.agentRuns e

theorem Ledger.expected (h : Ledger s) (e : Event) : Expected s e := by
  cases e with
  | fromAgent =>
      cases hReplies : s.toCoordinator with
      | nil => simp only [Expected, hReplies]
      | cons r rest =>
          cases r with
          | verdict instruction text =>
              simp only [Expected, hReplies]
              exact h.verdict hReplies
          | nodes text =>
              simp only [Expected, hReplies]
              exact (h.nodes hReplies).2
  | _ => trivial

theorem Ledger.upToDate (h : Ledger s) : UpToDate s := by
  refine ⟨h.alive, fun j hEnded hHandled => ?_⟩
  by_contra hMap
  rcases ((h.booked j).listed (by simpa using hMap)).ends with ⟨hGoesOn, -⟩ | ⟨-, sent, hSent, -⟩
  · exact hGoesOn hEnded
  · apply hHandled
    rw [hSent]
    exact List.mem_append_right _ (List.mem_singleton_self _)

theorem jobs_init : System.init.agent.jobs = [] := by
  simp [ClientState.jobs, ClientState.init, System.init]

theorem ledger_init : Ledger System.init where
  placed := by
    constructor <;> simp [ClientState.AddrKeys, jobs_init]
  alive := rfl
  booked j := by
    refine ⟨by rintro ⟨⟩, fun _ => ⟨.unborn rfl rfl rfl, ?_, ?_, ?_⟩⟩
    · intro reply hMem
      cases hMem
    · intro c hMem
      cases hMem
    · rintro ⟨job, hJob, -⟩
      rw [jobs_init] at hJob
      cases hJob
  worded j := by
    refine ⟨fun hBorn => absurd rfl hBorn, fun hBorn => absurd rfl hBorn, fun message hMem => ?_⟩
    cases hMem
  commands c hMem := by cases hMem
  verdicts instruction text hMem := by cases hMem
  polled := rfl
  genPid := by rintro ⟨⟩
  first := Int.le_refl _
  unborn _ _ := rfl

end

/-- **The coordinator finds every job it is told about.**  In every run whose steps are
settled, every verdict it handles names a key of its map, every NODES finds a `GenPid`, the
coordinator never crashes, and no terminated process stays in the map. -/
theorem coordinator_finds_every_job {es : List Event}
    (hSettled : Meets schedStep Settled System.init es) :
    UpToDate (run schedStep System.init es) ∧ Meets schedStep Expected System.init es := by
  constructor
  · exact (run_invariant Ledger (fun _ _ h hOk => h.step hOk) ledger_init hSettled).upToDate
  · exact Meets.of_invariant Ledger (fun _ e h hOk => ⟨h.step hOk, h.expected e⟩) ledger_init
      hSettled

/-- The confirmation of the heartbeat is handled before the job finishes. -/
def settledJob : List Event :=
  promptJob ++ [.fromAgent, .finish 1001, .fromJob 1001,
    .agentReads 5 (tablahashCreate _) .noSocket]

theorem coordinator_finds_every_job_settledJob :
    ((run schedStep System.init settledJob).proc 1001).state = .ended ∧
      UpToDate (run schedStep System.init settledJob) := by
  have hSettled : Meets schedStep Settled System.init settledJob := by
    decide +kernel
  exact ⟨by decide +kernel, (coordinator_finds_every_job hSettled).1⟩

/-- The coordinator handles `finished` before the confirmation of the heartbeat. -/
def lateConfirmation : List Event :=
  promptJob ++ [.finish 1001, .fromJob 1001, .fromAgent]

/-- A peer closes the connection, and the job is denied. -/
def deniedJob : List Event :=
  firstJob ++ [.agentRuns (.disconnect 5), .fromAgent, .take 1001]

theorem late_confirmation_crashes_and_denied_job_stays :
    (run schedStep System.init lateConfirmation).alive = false ∧
      ¬ UpToDate (run schedStep System.init deniedJob) := by
  constructor
  · decide +kernel
  · rintro ⟨-, hGone⟩
    have hEnded : ((run schedStep System.init deniedJob).proc 1001).state = .ended := by
      decide +kernel
    have hOutbox : ((run schedStep System.init deniedJob).proc 1001).outbox = [] := by
      decide +kernel
    have hMap : (run schedStep System.init deniedJob).jobsMap 1001 = true := by
      decide +kernel
    have hAbsent := hGone 1001 hEnded (by rw [hOutbox]; exact List.not_mem_nil)
    rw [hMap] at hAbsent
    cases hAbsent

end ResourceAgent.Ports.Coordinator
