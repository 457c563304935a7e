import Mathlib.Logic.Function.Basic
import ResourceAgent.Ports.ClientRun
import ResourceAgent.Ports.JobRequest

/-!
# The scheduler and its agent

The processes of `scheduler.erl` — the generator, one job process per JobId, the
coordinator — and the client side of the local agent, connected by channels that
keep order and may delay: from a process to the coordinator, from the
coordinator to the agent and back, from the coordinator to a process.  A message
that waits in the coordinator's mailbox is still in the channel it came from;
the coordinator takes the next message of any channel.

A step is one action of one party: a job process takes a message, sends a
heartbeat, wakes up or finishes; the coordinator handles one message; the agent
reads one line, or runs a handler caused by a peer or by its timer.

`Standing` says, for one JobId, what the state of its process implies about the
messages under way in both directions and about the agent's job; every step
preserves it as long as the agent answers JOB_STATUS only for jobs it still has
(`works_while_held`).
-/

namespace ResourceAgent.Ports.Scheduler

open ResourceAgent.Ports.HashTable
open ResourceAgent.Ports.Records
open ResourceAgent.Ports.Wire
open ResourceAgent.Ports.Client
open ResourceAgent.Ports.ClientRun
open ResourceAgent.Ports.JobRequest
open ResourceAgent.Verified.CText
open ResourceAgent.Verified.Runs

/-! ## The processes -/

/-- A message of a job process to the coordinator; the JobId it carries is the
one of the process that sends it. -/
inductive ToCoordinator where
  | registerAndRequest (message : Text)
  | status
  | finished
  deriving DecidableEq

/-- A message of the coordinator to a job process. -/
inductive Notice where
  | granted
  | denied
  | timeout
  deriving DecidableEq

/-- Where a job process is. -/
inductive JobState where
  | unborn
  /-- in `job_loop` -/
  | loop
  /-- after a timeout, before it calls `job` again -/
  | sleeping
  /-- it has taken `granted` and not yet sent `finished` -/
  | working
  | ended
  deriving DecidableEq

/-- A job process: its state, the message `job_request_format` made for it, what
it sent and the coordinator has not handled, and its mailbox. -/
structure JobProcess where
  state : JobState
  message : Text
  outbox : List ToCoordinator
  mailbox : List Notice

/-- The generator, between two jobs. -/
inductive GenState where
  | idle
  /-- `{get_nodes, self()}` is on its way to the coordinator -/
  | asking
  | waiting
  /-- `{nodes, Nodes}` is in its mailbox -/
  | answered
  deriving DecidableEq

/-- A line of the coordinator to the agent, with the JobId it is about. -/
inductive Command where
  | request (jobId : Int) (message : Text)
  | status (jobId : Int)
  | release (jobId : Int)
  | getNodes
  deriving DecidableEq

def Command.line : Command → Text
  | .request _ message => message
  | .status jobId => statusLine jobId
  | .release jobId => finishedLine jobId
  | .getNodes => "GET_NODES\n".toList

/-- A line of the agent to the coordinator: a verdict and the text after it, or
the nodes. -/
inductive Reply where
  | verdict (instruction : Instruction) (rest : Text)
  | nodes (rest : Text)
  deriving DecidableEq

/-- The whole system.  A key of `Jobs_Map` has one possible value, the process of
that JobId, so the map is given by its keys. -/
structure System where
  proc : Int → JobProcess
  nextJobId : Int
  generator : GenState
  jobsMap : Int → Bool
  /-- `GenPid` is a pid, not `undefined` -/
  genPid : Bool
  /-- the coordinator has not crashed -/
  alive : Bool
  toAgent : List Command
  toCoordinator : List Reply
  agent : ClientState

def System.init : System where
  proc := fun _ => ⟨.unborn, [], [], []⟩
  nextJobId := 1001
  generator := .idle
  jobsMap := fun _ => false
  genPid := false
  alive := true
  toAgent := []
  toCoordinator := []
  agent := .init

/-! ## Steps -/

inductive Event where
  /-- the generator asks for the nodes -/
  | ask
  /-- the generator takes the nodes, and starts a job if there are any -/
  | generate (picks : Option Picks)
  /-- a job process in `job_loop` waited 15 s -/
  | heartbeat (jobId : Int)
  /-- a job process in `job_loop` takes the next message -/
  | take (jobId : Int)
  /-- the sleep before a relaunch is over -/
  | wake (jobId : Int)
  /-- the work is over -/
  | finish (jobId : Int)
  /-- the coordinator handles a message of a job process -/
  | fromJob (jobId : Int)
  /-- the coordinator handles `{get_nodes, Pid}` -/
  | fromGenerator
  /-- the coordinator handles a line of the agent -/
  | fromAgent
  /-- the agent handles a line of the coordinator -/
  | agentReads (timer : Int) (nodes : Table nodeCallbacks) (dial : Dial)
  /-- the agent runs a handler that no line of the coordinator caused -/
  | agentRuns (e : ClientEvent)

/-- `list_to_integer`. -/
def listToInteger (text : Text) : Option Int :=
  let digits := fun ds : Text =>
    if ds ≠ [] ∧ ds.all Char.isDigit then some (leadingDigits ds) else none
  match text with
  | '-' :: ds => (digits ds).map fun n => -n
  | '+' :: ds => digits ds
  | ds => digits ds

/-- The message a verdict becomes; `WAITING` is only printed. -/
def noticeOf : Instruction → Option Notice
  | .granted => some .granted
  | .rejected => some .denied
  | .timeout => some .timeout
  | .waiting => none

/-- What the scheduler sees of a handler's effects. -/
def repliesOf (out : List Effect) : List Reply :=
  out.filterMap fun
    | .toErlang instruction rest => some (.verdict instruction rest)
    | .nodes rest => some (.nodes rest)
    | _ => none

def System.setProc (s : System) (jobId : Int) (p : JobProcess) : System :=
  { s with proc := Function.update s.proc jobId p }

/-- `coordinator_loop` on a message of the process `jobId`. -/
def handleJob (s : System) (jobId : Int) : System :=
  if s.alive then
    match (s.proc jobId).outbox with
    | [] => s
    | m :: rest =>
        let s := s.setProc jobId { s.proc jobId with outbox := rest }
        match m with
        | .registerAndRequest message =>
            { s with
              toAgent := s.toAgent ++ [.request jobId message]
              jobsMap := Function.update s.jobsMap jobId true }
        | .status => { s with toAgent := s.toAgent ++ [.status jobId] }
        | .finished =>
            { s with
              toAgent := s.toAgent ++ [.release jobId]
              jobsMap := Function.update s.jobsMap jobId false }
  else s

/-- `coordinator_loop` on a line of the agent.  A verdict about a JobId that is
not in the map, or NODES without a `GenPid`, crashes the coordinator; nobody
reads the channel after that. -/
def handleAgent (s : System) : System :=
  if s.alive then
    match s.toCoordinator with
    | [] => s
    | .nodes _ :: rest =>
        if s.genPid then
          { s with toCoordinator := rest, generator := .answered, genPid := false }
        else { s with alive := false }
    | .verdict instruction text :: rest =>
        match noticeOf instruction with
        | none => { s with toCoordinator := rest }
        | some notice =>
            match listToInteger text with
            | none => { s with alive := false }
            | some jobId =>
                if s.jobsMap jobId then
                  { s with toCoordinator := rest }.setProc jobId
                    { s.proc jobId with mailbox := (s.proc jobId).mailbox ++ [notice] }
                else { s with alive := false }
  else s

/-- `job_loop` on the next message. -/
def takeNotice (p : JobProcess) : JobProcess :=
  match p.state, p.mailbox with
  | .loop, .granted :: rest => { p with state := .working, mailbox := rest }
  | .loop, .denied :: rest => { p with state := .ended, mailbox := rest }
  | .loop, .timeout :: rest => { p with state := .sleeping, mailbox := rest }
  | _, _ => p

/-- The agent handles an event and its replies go out. -/
def System.runAgent (s : System) (e : ClientEvent) : System :=
  { s with
    agent := (clientStep s.agent e).1
    toCoordinator := s.toCoordinator ++ repliesOf (clientStep s.agent e).2 }

def schedStep (s : System) : Event → System
  | .ask => if s.generator = .idle then { s with generator := .asking } else s
  | .generate picks =>
      if s.generator = .answered then
        match picks with
        | none => { s with generator := .idle }
        | some picks =>
            { s with generator := .idle, nextJobId := s.nextJobId + 1 }.setProc s.nextJobId
              { state := .loop
                message := jobRequestFormat s.nextJobId picks
                outbox := [.registerAndRequest (jobRequestFormat s.nextJobId picks)]
                mailbox := [] }
      else s
  | .heartbeat jobId =>
      if (s.proc jobId).state = .loop then
        s.setProc jobId { s.proc jobId with outbox := (s.proc jobId).outbox ++ [.status] }
      else s
  | .take jobId => s.setProc jobId (takeNotice (s.proc jobId))
  | .wake jobId =>
      if (s.proc jobId).state = .sleeping then
        s.setProc jobId { s.proc jobId with
          state := .loop
          outbox := (s.proc jobId).outbox ++ [.registerAndRequest (s.proc jobId).message] }
      else s
  | .finish jobId =>
      if (s.proc jobId).state = .working then
        s.setProc jobId { s.proc jobId with
          state := .ended
          outbox := (s.proc jobId).outbox ++ [.finished] }
      else s
  | .fromJob jobId => handleJob s jobId
  | .fromGenerator =>
      if s.alive ∧ s.generator = .asking then
        { s with generator := .waiting, genPid := true, toAgent := s.toAgent ++ [.getNodes] }
      else s
  | .fromAgent => handleAgent s
  | .agentReads timer nodes dial =>
      match s.toAgent with
      | [] => s
      | c :: rest => { s with toAgent := rest }.runAgent (.erlang c.line timer nodes dial)
  | .agentRuns e =>
      match e with
      | .erlang _ _ _ _ => s
      | e => s.runAgent e

/-! ## What is under way about one JobId -/

/-- A line to the agent, as the message of the process `jobId` that caused it. -/
def Command.about (jobId : Int) : Command → Option ToCoordinator
  | .request id message => if id = jobId then some (.registerAndRequest message) else none
  | .status id => if id = jobId then some .status else none
  | .release id => if id = jobId then some .finished else none
  | .getNodes => none

/-- A line of the agent, as the message the process `jobId` will get. -/
def Reply.about (jobId : Int) : Reply → Option Notice
  | .verdict instruction text =>
      if listToInteger text = some jobId then noticeOf instruction else none
  | .nodes _ => none

/-- From the process to the agent, oldest first. -/
def upstream (s : System) (jobId : Int) : List ToCoordinator :=
  s.toAgent.filterMap (Command.about jobId) ++ (s.proc jobId).outbox

/-- From the agent to the process, oldest first. -/
def downstream (s : System) (jobId : Int) : List Notice :=
  (s.proc jobId).mailbox ++ s.toCoordinator.filterMap (Reply.about jobId)

def ToCoordinator.isRequest : ToCoordinator → Bool
  | .registerAndRequest _ => true
  | _ => false

/-- The requests under way. -/
def requests (up : List ToCoordinator) : Nat := up.countP ToCoordinator.isRequest

/-- The ends under way. -/
def finishes (up : List ToCoordinator) : Nat := up.count .finished

/-- What the state of a job process implies about its messages and about the
agent's job, which is absent, waiting or fully granted (`phase`). -/
def Standing (state : JobState) (p : Option Bool) (up : List ToCoordinator)
    (down : List Notice) : Prop :=
  match state with
  | .unborn => up = [] ∧ down = [] ∧ p = none
  | .loop => finishes up = 0 ∧
      ((requests up = 1 ∧ p = none ∧ down = []) ∨
        (requests up = 0 ∧ ((p = some false ∧ down = []) ∨
          (p = some true ∧ down ≠ [] ∧ ∀ n ∈ down, n = .granted) ∨
          (p = none ∧ (down = [.denied] ∨ down = [.timeout])))))
  | .sleeping => finishes up = 0 ∧ requests up = 0 ∧ p = none ∧ down = []
  | .working => finishes up = 0 ∧ requests up = 0 ∧ p = some true ∧ ∀ n ∈ down, n = .granted
  | .ended => requests up = 0 ∧ (∀ n ∈ down, n = .granted) ∧
      ((finishes up = 1 ∧ p = some true) ∨ (finishes up = 0 ∧ p = none))

section

variable {state : JobState} {p p' : Option Bool} {up : List ToCoordinator} {down : List Notice}

/-- Nothing is under way about a process that does not exist. -/
theorem Standing.born (h : Standing state p up down) (hUp : up ≠ []) : state ≠ .unborn := by
  rintro rfl
  exact hUp h.1

/-- A request is under way only for a job the agent does not have. -/
theorem Standing.request (h : Standing state p up down) (hUp : 0 < requests up) :
    state = .loop ∧ finishes up = 0 ∧ requests up = 1 ∧ p = none ∧ down = [] := by
  cases state with
  | unborn =>
      obtain ⟨rfl, -, -⟩ := h
      simp [requests] at hUp
  | loop =>
      obtain ⟨hFin, ⟨hOne, hp, hDown⟩ | ⟨hNone, -⟩⟩ := h
      · exact ⟨rfl, hFin, hOne, hp, hDown⟩
      · omega
  | sleeping =>
      have := h.2.1
      omega
  | working =>
      have := h.2.1
      omega
  | ended =>
      have := h.1
      omega

/-- An end is under way only for a job the agent has fully granted. -/
theorem Standing.finish (h : Standing state p up down) (hUp : 0 < finishes up) :
    state = .ended ∧ requests up = 0 ∧ finishes up = 1 ∧ p = some true ∧
      ∀ n ∈ down, n = .granted := by
  cases state with
  | unborn =>
      obtain ⟨rfl, -, -⟩ := h
      simp [finishes] at hUp
  | loop =>
      have := h.1
      omega
  | sleeping =>
      have := h.1
      omega
  | working =>
      have := h.1
      omega
  | ended =>
      obtain ⟨hReq, hDown, ⟨hOne, hp⟩ | ⟨hNone, -⟩⟩ := h
      · exact ⟨rfl, hReq, hOne, hp, hDown⟩
      · omega

/-- What the agent does on its own to a job it has. -/
theorem Standing.judged (h : Standing state p up down) {cause : Cause} {j : Int}
    {v : List Instruction} (hJudged : Judged cause j p v p') (hCause : cause ≠ .release j) :
    Standing state p' up (down ++ v.filterMap noticeOf) := by
  cases hJudged with
  | still => simpa using h
  | release b hRelease => exact absurd hRelease hCause
  | _ =>
      -- only a process in its loop has a waiting job
      cases state with
      | loop =>
          obtain ⟨hFin, ⟨-, hp, -⟩ | ⟨hReq, ⟨-, hDown⟩ | ⟨hp, -⟩ | ⟨hp, -⟩⟩⟩ := h
          · cases hp
          · exact ⟨hFin, .inr ⟨hReq, by simp [hDown, noticeOf]⟩⟩
          · cases hp
          · cases hp
      | unborn => cases h.2.2
      | sleeping => cases h.2.2.1
      | working => cases h.2.2.1
      | ended =>
          obtain ⟨-, -, ⟨-, hp⟩ | ⟨-, hp⟩⟩ := h <;> cases hp

/-- A heartbeat on its way changes nothing. -/
theorem Standing.status (h : Standing state p (.status :: up) down) :
    Standing state p up down := by
  have hReq : requests (.status :: up) = requests up := by
    simp [requests, ToCoordinator.isRequest]
  have hFin : finishes (.status :: up) = finishes up := by
    simp [finishes]
  cases state with
  | unborn => cases h.1
  | _ => simpa only [Standing, hReq, hFin] using h

theorem Standing.addStatus (h : Standing .loop p up down) :
    Standing .loop p (up ++ [.status]) down := by
  have hReq : requests (up ++ [.status]) = requests up := by
    simp [requests, ToCoordinator.isRequest]
  have hFin : finishes (up ++ [.status]) = finishes up := by
    simp [finishes]
  simpa only [Standing, hReq, hFin] using h

/-- The agent confirms a granted job once more. -/
theorem Standing.confirm (h : Standing state (some true) up down) :
    Standing state (some true) up (down ++ [.granted]) := by
  have hMore : (∀ n ∈ down, n = Notice.granted) → ∀ n ∈ down ++ [.granted], n = .granted := by
    intro hAll n hn
    rcases List.mem_append.mp hn with hn | hn
    · exact hAll n hn
    · exact List.mem_singleton.mp hn
  cases state with
  | unborn => cases h.2.2
  | loop =>
      obtain ⟨hFin, ⟨-, hp, -⟩ | ⟨hReq, ⟨hp, -⟩ | ⟨-, -, hAll⟩ | ⟨hp, -⟩⟩⟩ := h
      · cases hp
      · cases hp
      · exact ⟨hFin, .inr ⟨hReq, .inr (.inl ⟨rfl, by simp, hMore hAll⟩)⟩⟩
      · cases hp
  | sleeping => cases h.2.2.1
  | working => exact ⟨h.1, h.2.1, rfl, hMore h.2.2.2⟩
  | ended => exact ⟨h.1, hMore h.2.1, h.2.2⟩

end

/-! ## Verdicts on the wire -/

theorem listToInteger_itoa (n : Int) : listToInteger (itoa n) = some n := by
  have hDigits : ∀ k, (Nat.toDigits 10 k).all Char.isDigit = true := by
    intro k
    rw [List.all_eq_true]
    exact fun c hc => Nat.isDigit_of_mem_toDigits (by decide) (by decide) hc
  have hRead : ∀ k, (if Nat.toDigits 10 k ≠ [] ∧ (Nat.toDigits 10 k).all Char.isDigit then
      some (leadingDigits (Nat.toDigits 10 k)) else none) = some (k : Int) := by
    intro k
    rw [if_pos ⟨Nat.toDigits_ne_nil, hDigits k⟩, leadingDigits_toDigits]
  cases n with
  | ofNat k =>
      have hAll := hDigits k
      have hValue := hRead k
      simp only [itoa]
      cases hText : Nat.toDigits 10 k with
      | nil => exact absurd hText Nat.toDigits_ne_nil
      | cons c cs =>
          rw [hText] at hAll hValue
          have hc : c.isDigit = true := by
            rw [List.all_cons, Bool.and_eq_true] at hAll
            exact hAll.1
          unfold listToInteger
          split
          · rename_i heq
            rw [(List.cons.inj heq).1] at hc
            exact absurd hc (by decide)
          · rename_i heq
            rw [(List.cons.inj heq).1] at hc
            exact absurd hc (by decide)
          · exact hValue
  | negSucc k =>
      simp only [itoa, listToInteger]
      rw [hRead, Option.map_some, Int.negSucc_eq]
      rfl

/-- The texts a handler sends after a verdict are printed job ids. -/
def Printed (out : List Effect) : Prop :=
  ∀ instruction text, Effect.toErlang instruction text ∈ out → ∃ n, IsInt n ∧ text = itoa n

theorem printed_released (job : LocalJob) : Printed (released job) := by
  intro instruction text h
  obtain ⟨granted, -, h⟩ := List.mem_flatMap.mp h
  unfold releaseProvider at h
  split at h <;> simp at h

theorem printed_tearDown (s : ClientState) (job : LocalJob) : Printed (tearDown s job).2 := by
  intro instruction text h
  unfold tearDown at h
  split at h <;> simp at h

theorem printed_asked (dial : Dial) {job : LocalJob} (hId : IsInt job.jobId) :
    Printed (asked dial job).out := by
  intro instruction text h
  cases hNext : job.nextReq with
  | nil =>
      simp only [asked, hNext, List.mem_singleton, Effect.toErlang.injEq] at h
      exact ⟨job.jobId, hId, h.2⟩
  | cons req rest => cases dial <;> simp [asked, hNext] at h

theorem Printed.append {out out' : List Effect} (h : Printed out) (h' : Printed out') :
    Printed (out ++ out') := by
  intro instruction text hMem
  rcases List.mem_append.mp hMem with hMem | hMem
  · exact h _ _ hMem
  · exact h' _ _ hMem

theorem printed_toErlang {instruction : Instruction} {jobId : Int} (hId : IsInt jobId) :
    Printed [.toErlang instruction (itoa jobId)] := by
  intro i text h
  simp only [List.mem_singleton, Effect.toErlang.injEq] at h
  exact ⟨jobId, hId, h.2⟩

theorem printed_move {s s' : ClientState} {cause : Cause} {out : List Effect} (hTidy : Tidy s)
    (h : Move cause s s' out) (hCause : ∀ jobId, cause ≠ .request jobId []) : Printed out := by
  cases h with
  | idle =>
      intro _ _ h
      simp at h
  | refuse _ hRefused => exact absurd hRefused (hCause _)
  | reserve _ _ _ =>
      intro _ _ h
      simp at h
  | create hId _ _ _ _ => exact printed_asked _ hId
  | @grant _ fd job now dial _ hJob _ =>
      have hId : IsInt (LocalJob.advance job fd now).jobId := by
        rw [LocalJob.advance_jobId]
        exact hTidy.ids job hJob
      intro instruction text h
      exact printed_asked dial hId _ _ (by simpa using h)
  | @reject _ _ job _ hJob _ =>
      exact (printed_released job).append (printed_toErlang (hTidy.ids job hJob))
  | @release _ job _ _ _ => exact (printed_tearDown s job).append (printed_released job)
  | @timeOut _ job hJob _ _ =>
      exact ((printed_tearDown s job).append (printed_released job)).append
        (printed_toErlang (hTidy.ids job hJob))

theorem printed_moves {s s' : ClientState} {cause : Cause} {out : List Effect} (hTidy : Tidy s)
    (h : Moves cause s s' out) (hCause : ∀ jobId, cause ≠ .request jobId []) : Printed out := by
  induction h with
  | nil s =>
      intro _ _ h
      simp at h
  | cons hMove _ ih =>
      exact (printed_move hTidy hMove hCause).append (ih (hMove.tidy hTidy))

/-- What a process will hear of a handler are the verdicts about its JobId. -/
theorem replies_about {out : List Effect} (h : Printed out) (j : Int) :
    (repliesOf out).filterMap (Reply.about j) = (verdicts j out).filterMap noticeOf := by
  induction out with
  | nil => rfl
  | cons x out ih =>
      have hRest := ih fun i text hMem => h i text (List.mem_cons_of_mem _ hMem)
      cases x with
      | toErlang instruction text =>
          obtain ⟨n, hn, rfl⟩ := h instruction text (by simp)
          have hHead : (repliesOf (.toErlang instruction (itoa n) :: out)) =
              .verdict instruction (itoa n) :: repliesOf out := rfl
          have hVerdicts : verdicts j (.toErlang instruction (itoa n) :: out) =
              verdicts j [.toErlang instruction (itoa n)] ++ verdicts j out :=
            verdicts_append j [_] out
          rw [hHead, hVerdicts, List.filterMap_append, ← hRest, List.filterMap_cons]
          by_cases hSame : n = j
          · subst hSame
            cases instruction <;>
              simp [Reply.about, listToInteger_itoa, noticeOf, verdicts, atoi_itoa hn]
          · have hOther : verdicts j [.toErlang instruction (itoa n)] = [] := by
              simp [verdicts, atoi_itoa hn, hSame]
            simp [Reply.about, listToInteger_itoa, hSame, hOther]
      | nodes rest =>
          have hHead : (repliesOf (.nodes rest :: out)) = .nodes rest :: repliesOf out := rfl
          rw [hHead, List.filterMap_cons]
          exact hRest
      | _ => exact hRest

theorem standing_moves {s s' : ClientState} {cause : Cause} {out : List Effect} (hTidy : Tidy s)
    (h : Moves cause s s' out) {j : Int} (hNew : cause.requested ≠ some j)
    (hCause : cause ≠ .release j) {state : JobState} {up : List ToCoordinator}
    {down : List Notice} (hStanding : Standing state (phase s j) up down) :
    Standing state (phase s' j) up (down ++ (verdicts j out).filterMap noticeOf) := by
  induction h generalizing down with
  | nil s => simpa using hStanding
  | cons hMove _ ih =>
      rw [verdicts_append, List.filterMap_append, ← List.append_assoc]
      exact ih (hMove.tidy hTidy) (hStanding.judged (judged_move hTidy hMove hNew) hCause)

/-! ## The invariant -/

/-- The invariant for one JobId. -/
structure GoodJob (s : System) (j : Int) : Prop where
  standing : Standing (s.proc j).state (phase s.agent j) (upstream s j) (downstream s j)
  sent : ∀ message, .registerAndRequest message ∈ upstream s j →
    ∃ picks, message = jobRequestFormat j picks
  message : (s.proc j).state ≠ .unborn → ∃ picks, (s.proc j).message = jobRequestFormat j picks
  isInt : (s.proc j).state ≠ .unborn → IsInt j

structure Good (s : System) : Prop where
  tidy : Tidy s.agent
  job : ∀ j, GoodJob s j
  first : 1001 ≤ s.nextJobId
  unborn : ∀ j, s.nextJobId ≤ j → (s.proc j).state = .unborn

/-- Nothing that concerns `j` differs. -/
structure SameFor (j : Int) (s s' : System) : Prop where
  proc : s'.proc j = s.proc j
  toAgent : s'.toAgent.filterMap (Command.about j) = s.toAgent.filterMap (Command.about j)
  toCoordinator : s'.toCoordinator.filterMap (Reply.about j) =
    s.toCoordinator.filterMap (Reply.about j)
  phase : ClientRun.phase s'.agent j = ClientRun.phase s.agent j

theorem GoodJob.congr {s s' : System} {j : Int} (h : GoodJob s j) (hSame : SameFor j s s') :
    GoodJob s' j := by
  have hUp : upstream s' j = upstream s j := by
    rw [upstream, hSame.toAgent, hSame.proc]
    rfl
  have hDown : downstream s' j = downstream s j := by
    rw [downstream, hSame.toCoordinator, hSame.proc]
    rfl
  constructor
  · rw [hUp, hDown, hSame.proc, hSame.phase]
    exact h.standing
  · rw [hUp]
    exact h.sent
  · rw [hSame.proc]
    exact h.message
  · rw [hSame.proc]
    exact h.isInt

/-- A step that concerns only `j`, and no process numbers. -/
theorem Good.at {s s' : System} (h : Good s) (j : Int) (hTidy : Tidy s'.agent)
    (hOthers : ∀ i ≠ j, SameFor i s s') (hJob : GoodJob s' j) (hNext : s'.nextJobId = s.nextJobId)
    (hBorn : (s.proc j).state = .unborn → (s'.proc j).state = .unborn) : Good s' where
  tidy := hTidy
  job i := by
    by_cases hi : i = j
    · exact hi ▸ hJob
    · exact (h.job i).congr (hOthers i hi)
  first := hNext ▸ h.first
  unborn i hi := by
    rw [hNext] at hi
    by_cases hij : i = j
    · subst hij
      exact hBorn (h.unborn i hi)
    · rw [(hOthers i hij).proc]
      exact h.unborn i hi

theorem sameFor_setProc {s : System} {i j : Int} (h : i ≠ j) (p : JobProcess) :
    SameFor i s (s.setProc j p) :=
  ⟨Function.update_of_ne h _ _, rfl, rfl, rfl⟩

/-- A step of the process `j` that exists. -/
theorem Good.setProc {s : System} (h : Good s) {j : Int} (hState : (s.proc j).state ≠ .unborn)
    {p : JobProcess}
    (hStanding : Standing p.state (phase s.agent j)
      (s.toAgent.filterMap (Command.about j) ++ p.outbox)
      (p.mailbox ++ s.toCoordinator.filterMap (Reply.about j)))
    (hOutbox : ∀ x ∈ p.outbox, x ∈ (s.proc j).outbox ∨
      ∀ message, x = .registerAndRequest message → message = (s.proc j).message)
    (hMessage : p.message = (s.proc j).message) : Good (s.setProc j p) := by
  have hProc : (s.setProc j p).proc j = p := Function.update_self _ _ _
  refine h.at j h.tidy (fun i hi => sameFor_setProc hi p) ?_ rfl
    fun hUnborn => absurd hUnborn hState
  constructor
  · rw [upstream, downstream, hProc]
    exact hStanding
  · intro message hMem
    rw [upstream, hProc] at hMem
    rcases List.mem_append.mp hMem with hMem | hMem
    · exact (h.job j).sent message (List.mem_append_left _ hMem)
    · rcases hOutbox _ hMem with hOld | hOwn
      · exact (h.job j).sent message (List.mem_append_right _ hOld)
      · rw [hOwn message rfl]
        exact (h.job j).message hState
  · intro _
    rw [hProc, hMessage]
    exact (h.job j).message hState
  · intro _
    exact (h.job j).isInt hState

theorem Good.heartbeat {s : System} (h : Good s) (j : Int) : Good (schedStep s (.heartbeat j)) := by
  simp only [schedStep]
  split
  · rename_i hState
    refine h.setProc (by rw [hState]; decide) ?_ ?_ rfl
    · have hStanding := (h.job j).standing
      rw [hState] at hStanding
      simp only [hState]
      rw [← List.append_assoc]
      exact hStanding.addStatus
    · intro x hx
      rcases List.mem_append.mp hx with hx | hx
      · exact .inl hx
      · rw [List.mem_singleton] at hx
        exact .inr (by rintro message rfl; cases hx)
  · exact h

theorem Good.wake {s : System} (h : Good s) (j : Int) : Good (schedStep s (.wake j)) := by
  simp only [schedStep]
  split
  · rename_i hState
    refine h.setProc (by rw [hState]; decide) ?_ ?_ rfl
    · have hStanding := (h.job j).standing
      rw [hState] at hStanding
      obtain ⟨hFin, hReq, hp, hDown⟩ := hStanding
      rw [← List.append_assoc]
      refine ⟨?_, .inl ⟨?_, hp, hDown⟩⟩
      · rw [finishes, List.count_append]
        exact hFin
      · rw [requests, List.countP_append]
        have hReq' : List.countP ToCoordinator.isRequest
            (s.toAgent.filterMap (Command.about j) ++ (s.proc j).outbox) = 0 := hReq
        rw [hReq']
        rfl
    · intro x hx
      rcases List.mem_append.mp hx with hx | hx
      · exact .inl hx
      · rw [List.mem_singleton] at hx
        refine .inr fun message hSame => ?_
        rw [hx] at hSame
        cases hSame
        rfl
  · exact h

theorem Good.finish {s : System} (h : Good s) (j : Int) : Good (schedStep s (.finish j)) := by
  simp only [schedStep]
  split
  · rename_i hState
    refine h.setProc (by rw [hState]; decide) ?_ ?_ rfl
    · have hStanding := (h.job j).standing
      rw [hState] at hStanding
      obtain ⟨hFin, hReq, hp, hDown⟩ := hStanding
      rw [← List.append_assoc]
      refine ⟨?_, hDown, .inl ⟨?_, hp⟩⟩
      · rw [requests, List.countP_append]
        exact hReq
      · rw [finishes, List.count_append]
        have hFin' : List.count ToCoordinator.finished
            (s.toAgent.filterMap (Command.about j) ++ (s.proc j).outbox) = 0 := hFin
        rw [hFin']
        rfl
    · intro x hx
      rcases List.mem_append.mp hx with hx | hx
      · exact .inl hx
      · rw [List.mem_singleton] at hx
        exact .inr (by rintro message rfl; cases hx)
  · exact h

theorem Good.take {s : System} (h : Good s) (j : Int) : Good (schedStep s (.take j)) := by
  simp only [schedStep]
  by_cases hState : (s.proc j).state = .loop
  · have hStanding := (h.job j).standing
    rw [hState] at hStanding
    obtain ⟨hFin, hCase⟩ := hStanding
    cases hMail : (s.proc j).mailbox with
    | nil =>
        have hSame : takeNotice (s.proc j) = s.proc j := by
          unfold takeNotice
          rw [hState, hMail]
        rw [hSame]
        refine h.setProc (by rw [hState]; decide) ?_ (fun x hx => .inl hx) rfl
        exact (h.job j).standing
    | cons n rest =>
        have hDown : downstream s j =
            n :: (rest ++ s.toCoordinator.filterMap (Reply.about j)) := by
          rw [downstream, hMail, List.cons_append]
        -- something is in the mailbox, so no request is under way
        rcases hCase with ⟨-, -, hNil⟩ | ⟨hReq, ⟨-, hNil⟩ | ⟨hp, -, hAll⟩ | ⟨hp, hOne⟩⟩
        · rw [hDown] at hNil
          cases hNil
        · rw [hDown] at hNil
          cases hNil
        · rw [hDown] at hAll
          have hn : n = .granted := hAll n (by simp)
          have hTake : takeNotice (s.proc j) =
              { s.proc j with state := .working, mailbox := rest } := by
            unfold takeNotice
            rw [hState, hMail, hn]
          rw [hTake]
          refine h.setProc (by rw [hState]; decide) ?_ (fun x hx => .inl hx) rfl
          exact ⟨hFin, hReq, hp, fun m hm => hAll m (List.mem_cons_of_mem _ hm)⟩
        · rw [hDown] at hOne
          rcases hOne with hOne | hOne
          · have hTake : takeNotice (s.proc j) =
                { s.proc j with state := .ended, mailbox := rest } := by
              unfold takeNotice
              rw [hState, hMail, (List.cons.inj hOne).1]
            rw [hTake]
            refine h.setProc (by rw [hState]; decide) ?_ (fun x hx => .inl hx) rfl
            refine ⟨hReq, ?_, .inr ⟨hFin, hp⟩⟩
            simp [(List.cons.inj hOne).2]
          · have hTake : takeNotice (s.proc j) =
                { s.proc j with state := .sleeping, mailbox := rest } := by
              unfold takeNotice
              rw [hState, hMail, (List.cons.inj hOne).1]
            rw [hTake]
            refine h.setProc (by rw [hState]; decide) ?_ (fun x hx => .inl hx) rfl
            exact ⟨hFin, hReq, hp, (List.cons.inj hOne).2⟩
  · have hSame : takeNotice (s.proc j) = s.proc j := by
      unfold takeNotice
      split
      · exact absurd (by assumption) hState
      · exact absurd (by assumption) hState
      · exact absurd (by assumption) hState
      · rfl
    rw [hSame, System.setProc, Function.update_eq_self_iff.mpr rfl]
    exact h

/-- A step that concerns no process. -/
theorem Good.same {s s' : System} (h : Good s) (hTidy : Tidy s'.agent)
    (hAll : ∀ j, SameFor j s s') (hNext : s'.nextJobId = s.nextJobId) : Good s' :=
  h.at 0 hTidy (fun i _ => hAll i) ((h.job 0).congr (hAll 0)) hNext
    fun hUnborn => by rw [(hAll 0).proc]; exact hUnborn

/-- JobIds stay below the limit of the agent's `int`. -/
theorem Good.generate {s : System} (h : Good s) (picks : Option Picks)
    (hSmall : s.nextJobId < 2 ^ 31) : Good (schedStep s (.generate picks)) := by
  simp only [schedStep]
  split
  · cases picks with
    | none => exact h.same h.tidy (fun j => ⟨rfl, rfl, rfl, rfl⟩) rfl
    | some picks =>
        have hStanding := (h.job s.nextJobId).standing
        rw [h.unborn s.nextJobId (Int.le_refl _)] at hStanding
        obtain ⟨hUp, hDown, hp⟩ := hStanding
        have hLines : s.toAgent.filterMap (Command.about s.nextJobId) = [] :=
          (List.append_eq_nil_iff.mp hUp).1
        have hReplies : s.toCoordinator.filterMap (Reply.about s.nextJobId) = [] :=
          (List.append_eq_nil_iff.mp hDown).2
        have hFirst := h.first
        refine ⟨h.tidy, fun j => ?_, ?_, fun j hj => ?_⟩
        · by_cases hj : j = s.nextJobId
          · subst hj
            constructor <;>
              simp only [upstream, downstream, System.setProc, Function.update_self, hLines,
                hReplies, List.nil_append]
            · exact ⟨rfl, .inl ⟨rfl, hp, rfl⟩⟩
            · intro message hMem
              rw [List.mem_singleton] at hMem
              cases hMem
              exact ⟨picks, rfl⟩
            · exact fun _ => ⟨picks, rfl⟩
            · exact fun _ => ⟨by omega, hSmall⟩
          · exact (h.job j).congr ⟨Function.update_of_ne hj _ _, rfl, rfl, rfl⟩
        · show 1001 ≤ s.nextJobId + 1
          omega
        · have hGe : s.nextJobId + 1 ≤ j := hj
          have hNe : j ≠ s.nextJobId := by omega
          show (Function.update s.proc s.nextJobId _ j).state = _
          rw [Function.update_of_ne hNe]
          exact h.unborn j (by omega)
  · exact h

/-- The coordinator passes a message on: what is under way stays under way. -/
theorem Good.fromJob {s : System} (h : Good s) (j : Int) : Good (schedStep s (.fromJob j)) := by
  simp only [schedStep, handleJob]
  split
  · cases hOut : (s.proc j).outbox with
    | nil => exact h
    | cons m rest =>
        -- whatever the message, it moves from the outbox to the line
        have hMoved : ∀ (c : Command) (keys : Int → Bool), Command.about j c = some m →
            (∀ i ≠ j, Command.about i c = none) →
            Good { s.setProc j { s.proc j with outbox := rest } with
              toAgent := s.toAgent ++ [c], jobsMap := keys } := by
          intro c keys hAbout hOther
          have hUp : s.toAgent.filterMap (Command.about j) ++ [m] ++ rest = upstream s j := by
            rw [upstream, hOut, List.append_assoc, List.singleton_append]
          refine h.at j h.tidy (fun i hi => ?_) ?_ rfl ?_
          · refine ⟨Function.update_of_ne hi _ _, ?_, rfl, rfl⟩
            simp [hOther i hi]
          · have hJob := h.job j
            constructor <;>
              simp only [upstream, downstream, System.setProc, Function.update_self,
                List.filterMap_append, List.filterMap_cons, List.filterMap_nil, hAbout, hUp]
            · exact hJob.standing
            · exact hJob.sent
            · exact hJob.message
            · exact hJob.isInt
          · intro hUnborn
            simp only [System.setProc, Function.update_self]
            exact hUnborn
        cases m with
        | registerAndRequest message =>
            exact hMoved (.request j message) _ (by simp [Command.about])
              fun i hi => by simp [Command.about, Ne.symm hi]
        | status =>
            exact hMoved (.status j) _ (by simp [Command.about])
              fun i hi => by simp [Command.about, Ne.symm hi]
        | finished =>
            exact hMoved (.release j) _ (by simp [Command.about])
              fun i hi => by simp [Command.about, Ne.symm hi]
  · exact h

theorem Good.fromAgent {s : System} (h : Good s) : Good (schedStep s .fromAgent) := by
  simp only [schedStep, handleAgent]
  split
  · cases hLine : s.toCoordinator with
    | nil => exact h
    | cons reply rest =>
        -- a line that no process hears of
        have hDropped : (∀ j, Reply.about j reply = none) → ∀ s' : System, s'.agent = s.agent →
            s'.proc = s.proc → s'.toAgent = s.toAgent → s'.nextJobId = s.nextJobId →
            s'.toCoordinator = rest → Good s' := by
          intro hNone s' hAgent hProc hTo hNext hRest
          refine h.same (hAgent ▸ h.tidy) (fun j => ?_) hNext
          refine ⟨by rw [hProc], by rw [hTo], ?_, by rw [hAgent]⟩
          rw [hRest, hLine, List.filterMap_cons, hNone j]
        have hCrash : Good { s with alive := false, toCoordinator := reply :: rest } := by
          rw [← hLine]
          exact h.same h.tidy (fun j => ⟨rfl, rfl, rfl, rfl⟩) rfl
        cases reply with
        | nodes text =>
            dsimp only
            split
            · exact hDropped (fun _ => rfl) _ rfl rfl rfl rfl rfl
            · exact hCrash
        | verdict instruction text =>
            dsimp only
            cases hNotice : noticeOf instruction with
            | none =>
                refine hDropped (fun j => ?_) _ rfl rfl rfl rfl rfl
                simp [Reply.about, hNotice]
            | some notice =>
                dsimp only
                cases hId : listToInteger text with
                | none => exact hCrash
                | some j =>
                    dsimp only
                    split
                    · have hDown : (s.proc j).mailbox ++ [notice] ++
                          rest.filterMap (Reply.about j) = downstream s j := by
                        rw [downstream, hLine, List.filterMap_cons]
                        simp [Reply.about, hId, hNotice]
                      refine h.at j h.tidy (fun i hi => ?_) ?_ rfl ?_
                      · refine ⟨Function.update_of_ne hi _ _, rfl, ?_, rfl⟩
                        rw [hLine, List.filterMap_cons]
                        have hOther : Reply.about i (.verdict instruction text) = none := by
                          simp [Reply.about, hId, Ne.symm hi]
                        rw [hOther]
                        rfl
                      · have hJob := h.job j
                        constructor <;>
                          simp only [upstream, downstream, System.setProc, Function.update_self,
                            hDown]
                        · exact hJob.standing
                        · exact hJob.sent
                        · exact hJob.message
                        · exact hJob.isInt
                      · intro hUnborn
                        simp only [System.setProc, Function.update_self]
                        exact hUnborn
                    · exact hCrash
  · exact h

/-! ## Steps of the agent -/

/-- A process hears of what the agent does by the verdicts about its job. -/
theorem downstream_runAgent {s : System} {e : ClientEvent}
    (hPrinted : Printed (clientStep s.agent e).2) (j : Int) :
    downstream (s.runAgent e) j =
      downstream s j ++ (verdicts j (clientStep s.agent e).2).filterMap noticeOf := by
  simp only [downstream, System.runAgent, List.filterMap_append, replies_about hPrinted,
    List.append_assoc]

theorem downstream_silent {s : System} {e : ClientEvent}
    (hPrinted : Printed (clientStep s.agent e).2) {j : Int}
    (hSilent : verdicts j (clientStep s.agent e).2 = []) :
    downstream (s.runAgent e) j = downstream s j := by
  rw [downstream_runAgent hPrinted, hSilent, List.filterMap_nil, List.append_nil]

/-- What the agent does to the jobs the line it handles is not about. -/
theorem GoodJob.runAgent {s : System} {j : Int} (h : GoodJob s j) (hTidy : Tidy s.agent)
    {e : ClientEvent} {cause : Cause}
    (hMoves : Moves cause s.agent (clientStep s.agent e).1 (clientStep s.agent e).2)
    (hPrinted : Printed (clientStep s.agent e).2) (hNew : cause.requested ≠ some j)
    (hCause : cause ≠ .release j) : GoodJob (s.runAgent e) j := by
  refine ⟨?_, h.sent, h.message, h.isInt⟩
  rw [downstream_runAgent hPrinted]
  exact standing_moves hTidy hMoves hNew hCause h.standing

theorem Good.agentRuns {s : System} (h : Good s) (e : ClientEvent) :
    Good (schedStep s (.agentRuns e)) := by
  have hRun : ∀ e, causeOf e = .other → isQuery e = false → Good (s.runAgent e) := by
    intro e hCause hQuery
    have hFresh : FreshRequest s.agent e := by
      intro job _
      rw [hCause]
      exact fun h => by cases h
    have hMoves := clientStep_moves h.tidy hFresh hQuery
    rw [hCause] at hMoves
    have hPrinted := printed_moves h.tidy hMoves (fun _ => by rintro ⟨⟩)
    exact ⟨hMoves.tidy h.tidy, fun j => (h.job j).runAgent h.tidy hMoves hPrinted
      (by rintro ⟨⟩) (by rintro ⟨⟩), h.first, h.unborn⟩
  cases e with
  | erlang _ _ _ _ => exact h
  | line fd instruction now dial => exact hRun _ rfl rfl
  | sendRequest fd => exact hRun _ rfl rfl
  | disconnect fd => exact hRun _ rfl rfl
  | sweep now => exact hRun _ rfl rfl

section

variable {s : System} (h : Good s) {c : Command} {rest : List Command}
  (hLine : s.toAgent = c :: rest)
include h hLine

/-- The line has been read: nothing changes for the processes it is not about. -/
theorem sameFor_read {j : Int} (hOther : Command.about j c = none) :
    GoodJob { s with toAgent := rest } j := by
  refine (h.job j).congr ⟨rfl, ?_, rfl, rfl⟩
  rw [hLine, List.filterMap_cons, hOther]

omit h in
theorem upstream_read {j : Int} {m : ToCoordinator} (hAbout : Command.about j c = some m) :
    upstream s j = m :: upstream { s with toAgent := rest } j := by
  rw [upstream, hLine, List.filterMap_cons, hAbout]
  rfl

/-- The process the line is about exists, and its JobId is an `int`. -/
theorem isInt_read {j : Int} {m : ToCoordinator} (hAbout : Command.about j c = some m) :
    IsInt j := by
  refine (h.job j).isInt ((h.job j).standing.born ?_)
  rw [upstream_read hLine hAbout]
  exact List.cons_ne_nil _ _

/-- The requests that are still on their way. -/
theorem sent_read {j : Int} {m : ToCoordinator} (hAbout : Command.about j c = some m)
    {message : Text}
    (hMem : .registerAndRequest message ∈ upstream { s with toAgent := rest } j) :
    ∃ picks, message = jobRequestFormat j picks := by
  refine (h.job j).sent message ?_
  rw [upstream_read hLine hAbout]
  exact List.mem_cons_of_mem _ hMem

end

theorem Good.readsNodes {s : System} (h : Good s) {rest : List Command}
    (hLine : s.toAgent = .getNodes :: rest) (timer : Int) (nodes : Table nodeCallbacks)
    (dial : Dial) :
    Good ({ s with toAgent := rest }.runAgent
      (.erlang Command.getNodes.line timer nodes dial)) := by
  have hParse : parseErlang Command.getNodes.line = .getNodes := by decide
  have hStep : clientStep s.agent (.erlang Command.getNodes.line timer nodes dial) =
      (s.agent, [.nodes (getNodesInstance nodes)]) := by
    simp only [clientStep, hParse, erlangToC]
  refine h.same ?_ (fun j => ⟨rfl, ?_, ?_, ?_⟩) rfl
  · simp only [System.runAgent, hStep]
    exact h.tidy
  · rw [hLine]
    rfl
  · simp only [System.runAgent, hStep, repliesOf, List.filterMap_append]
    simp [Reply.about]
  · simp only [System.runAgent, hStep]

theorem Good.readsStatus {s : System} (h : Good s) {j : Int} {rest : List Command}
    (hLine : s.toAgent = .status j :: rest) (timer : Int) (nodes : Table nodeCallbacks)
    (dial : Dial) (hPresent : ∃ job ∈ s.agent.jobs, job.jobId = j) :
    Good ({ s with toAgent := rest }.runAgent
      (.erlang (Command.status j).line timer nodes dial)) := by
  have hAbout : Command.about j (.status j) = some .status := by simp [Command.about]
  have hInt := isInt_read h hLine hAbout
  have hParse : parseErlang (Command.status j).line = .jobStatus (itoa j) :=
    parseErlang_statusLine hInt
  obtain ⟨job, hJob, hId⟩ := hPresent
  have hFind : s.agent.findJob (atoi (itoa j)) = some job := by
    rw [atoi_itoa hInt]
    exact ClientState.findJob_eq_some.mpr ⟨hJob, hId⟩
  have hPhase : phase s.agent j = some (decide (job.nextReq = [])) := by
    rw [← hId]
    exact phase_of_mem hJob
  -- the answer, and what the process hears of it
  have hStep : clientStep s.agent (.erlang (Command.status j).line timer nodes dial) =
      (s.agent, [.toErlang (if job.nextReq = [] then .granted else .waiting) (itoa j)]) := by
    simp only [clientStep, hParse, erlangToC, hFind]
    split <;> rw [cToErlang_itoa hInt]
  refine h.at j ?_ (fun i hi => ⟨rfl, ?_, ?_, ?_⟩) ⟨?_, ?_, (h.job j).message, (h.job j).isInt⟩ rfl
    fun hUnborn => hUnborn
  · simp only [System.runAgent, hStep]
    exact h.tidy
  · rw [hLine, List.filterMap_cons]
    simp [Command.about, Ne.symm hi, System.runAgent]
  · simp only [System.runAgent, hStep, repliesOf, List.filterMap_append]
    simp [Reply.about, listToInteger_itoa, Ne.symm hi]
  · simp only [System.runAgent, hStep]
  · have hStanding := (h.job j).standing
    rw [upstream_read hLine hAbout] at hStanding
    have hKept := hStanding.status
    have hDown : downstream ({ s with toAgent := rest }.runAgent
        (.erlang (Command.status j).line timer nodes dial)) j =
        downstream s j ++ if job.nextReq = [] then [.granted] else [] := by
      simp only [downstream, System.runAgent, hStep, repliesOf, List.filterMap_append]
      by_cases hNext : job.nextReq = [] <;>
        simp [hNext, Reply.about, listToInteger_itoa, noticeOf]
    rw [hDown]
    by_cases hNext : job.nextReq = []
    · simp only [System.runAgent, hStep, hPhase, hNext, decide_true, if_true] at hKept ⊢
      exact hKept.confirm
    · simp only [System.runAgent, hStep, hNext, if_false, List.append_nil]
      exact hKept
  · exact fun message hMem => sent_read h hLine hAbout hMem

theorem Good.readsRelease {s : System} (h : Good s) {j : Int} {rest : List Command}
    (hLine : s.toAgent = .release j :: rest) (timer : Int) (nodes : Table nodeCallbacks)
    (dial : Dial) :
    Good ({ s with toAgent := rest }.runAgent
      (.erlang (Command.release j).line timer nodes dial)) := by
  have hAbout : Command.about j (.release j) = some .finished := by simp [Command.about]
  have hInt := isInt_read h hLine hAbout
  have hParse : parseErlang (Command.release j).line = .jobRelease (itoa j) :=
    parseErlang_finishedLine hInt
  have hUp := upstream_read hLine hAbout
  obtain ⟨hState, hReq, hFin, hPhase, hDown⟩ := (h.job j).standing.finish (by
    rw [hUp]
    simp [finishes])
  have hCause : causeOf (.erlang (Command.release j).line timer nodes dial) = .release j := by
    simp [causeOf, hParse, atoi_itoa hInt]
  have hMove : Move (.release j) s.agent
      (clientStep s.agent (.erlang (Command.release j).line timer nodes dial)).1
      (clientStep s.agent (.erlang (Command.release j).line timer nodes dial)).2 := by
    rw [← hCause]
    refine clientStep_move h.tidy ?_ (by simp [isQuery, hParse]) (by rintro now ⟨⟩)
    intro job _
    rw [hCause]
    exact fun hNone => by cases hNone
  have hPrinted := printed_move h.tidy hMove (fun _ => by rintro ⟨⟩)
  -- the agent has the job, and after the handler it does not
  obtain ⟨job, hJob, hId, -⟩ := phase_eq_some.mp hPhase
  have hFind : s.agent.findJob (atoi (itoa j)) = some job := by
    rw [atoi_itoa hInt]
    exact ClientState.findJob_eq_some.mpr ⟨hJob, hId⟩
  have hStep : clientStep s.agent (.erlang (Command.release j).line timer nodes dial) =
      ((releaseResources (tearDown s.agent job).1 job).1.removeJob job,
        (tearDown s.agent job).2 ++ (releaseResources (tearDown s.agent job).1 job).2) := by
    simp only [clientStep, hParse, erlangToC, hFind]
  have hGone : phase (clientStep s.agent (.erlang (Command.release j).line timer nodes dial)).1 j =
      none := by
    rw [hStep, ← hId]
    exact phase_changed_none hJob (tearDown_release_changed h.tidy hJob)
  have hSilent : verdicts j
      (clientStep s.agent (.erlang (Command.release j).line timer nodes dial)).2 = [] := by
    rw [hStep, verdicts_append, verdicts_tearDown]
    exact verdicts_released j job
  refine ⟨hMove.tidy h.tidy, fun i => ?_, h.first, h.unborn⟩
  by_cases hi : i = j
  · subst hi
    refine ⟨?_, ?_, (h.job i).message, (h.job i).isInt⟩
    · have hDown' : downstream ({ s with toAgent := rest }.runAgent
          (.erlang (Command.release i).line timer nodes dial)) i = downstream s i :=
        downstream_silent (s := { s with toAgent := rest }) hPrinted hSilent
      rw [hDown']
      simp only [System.runAgent, hState, hGone]
      rw [hUp] at hReq hFin
      have hFin' : finishes (upstream { s with toAgent := rest } i) = 0 := by
        simpa [finishes] using hFin
      exact ⟨hReq, hDown, .inr ⟨hFin', rfl⟩⟩
    · exact fun message hMem => sent_read h hLine hAbout hMem
  · have hOther : Command.about i (.release j) = none := by simp [Command.about, Ne.symm hi]
    refine (sameFor_read h hLine hOther).runAgent h.tidy hMove.moves hPrinted (by rintro ⟨⟩) ?_
    intro hSame
    cases hSame
    exact hi rfl

/-- A JOB_REQUEST without destinations: the agent refuses it. -/
theorem clientStep_refused (a : ClientState) {j : Int} (hInt : IsInt j) {picks : Picks}
    (hWanted : wanted picks = []) (timer : Int) (nodes : Table nodeCallbacks) (dial : Dial) :
    clientStep a (.erlang (jobRequestFormat j picks) timer nodes dial) =
      (a, [.toErlang .rejected (itoa j)]) := by
  simp only [clientStep, parseErlang_jobRequestFormat hInt, hWanted, List.map_nil, erlangToC]
  rw [cToErlang_itoa hInt]

/-- A JOB_REQUEST with destinations: a new job waits for its first resource, and
nothing is said about it. -/
theorem clientStep_accepted {a : ClientState} (hTidy : Tidy a) {j : Int} (hInt : IsInt j)
    (hAbsent : ∀ job ∈ a.jobs, job.jobId ≠ j) {picks : Picks} (hWanted : wanted picks ≠ [])
    (timer : Int) (nodes : Table nodeCallbacks) (dial : Dial) :
    ∃ reqs, reqs ≠ [] ∧
      Move (.request j reqs) a
        (clientStep a (.erlang (jobRequestFormat j picks) timer nodes dial)).1
        (clientStep a (.erlang (jobRequestFormat j picks) timer nodes dial)).2 ∧
      phase (clientStep a (.erlang (jobRequestFormat j picks) timer nodes dial)).1 j = some false ∧
      verdicts j (clientStep a (.erlang (jobRequestFormat j picks) timer nodes dial)).2 = [] := by
  obtain ⟨type, types, hWanted⟩ := List.exists_cons_of_ne_nil hWanted
  have hParsed := parseDestinations_format nodes picks
  rw [hWanted] at hParsed
  have hStep : clientStep a (.erlang (jobRequestFormat j picks) timer nodes dial) =
      askForNextResource dial
        (a.insertJob (makeJob a j ((type :: types).map fun type =>
          pendingOf nodes type (picks type)) timer))
        (makeJob a j ((type :: types).map fun type => pendingOf nodes type (picks type))
          timer) := by
    simp only [clientStep, parseErlang_jobRequestFormat hInt, hWanted]
    rw [← hParsed]
    simp only [List.map_cons, erlangToC, atoi_itoa hInt]
  rw [hStep]
  have hCreated := @create_changed a hTidy
    (makeJob a j ((type :: types).map fun type => pendingOf nodes type (picks type)) timer)
    hInt hAbsent rfl dial
  obtain ⟨hChanged, hOut⟩ := hCreated
  refine ⟨(type :: types).map fun type => pendingOf nodes type (picks type), ?_, ?_, ?_, ?_⟩
  · exact List.cons_ne_nil _ _
  · rw [hOut]
    exact .create hInt hAbsent rfl rfl hChanged
  · have hThere := phase_of_mem hChanged.mem_self
    rw [asked_jobId, asked_nextReq] at hThere
    exact hThere
  · rw [hOut, verdicts_asked j dial hInt, if_neg]
    rintro ⟨hNil, -⟩
    exact List.cons_ne_nil _ _ hNil

theorem Good.readsRequest {s : System} (h : Good s) {j : Int} {message : Text}
    {rest : List Command} (hLine : s.toAgent = .request j message :: rest) (timer : Int)
    (nodes : Table nodeCallbacks) (dial : Dial) :
    Good ({ s with toAgent := rest }.runAgent
      (.erlang (Command.request j message).line timer nodes dial)) := by
  have hAbout : Command.about j (.request j message) = some (.registerAndRequest message) := by
    simp [Command.about]
  have hInt := isInt_read h hLine hAbout
  have hUp := upstream_read hLine hAbout
  obtain ⟨hState, hFin, hReq, hPhase, hDown⟩ := (h.job j).standing.request (by
    rw [hUp]
    simp [requests, ToCoordinator.isRequest])
  obtain ⟨picks, hMessage⟩ := (h.job j).sent message (by rw [hUp]; exact List.mem_cons_self)
  rw [hUp] at hFin hReq
  have hFin' : finishes (upstream { s with toAgent := rest } j) = 0 := by
    simpa [finishes] using hFin
  have hReq' : requests (upstream { s with toAgent := rest } j) = 0 := by
    rw [requests, List.countP_cons_of_pos rfl] at hReq
    exact Nat.succ.inj hReq
  have hSent : ∀ m, .registerAndRequest m ∈ upstream { s with toAgent := rest } j →
      ∃ picks, m = jobRequestFormat j picks := fun m hMem => sent_read h hLine hAbout hMem
  show Good ({ s with toAgent := rest }.runAgent (.erlang message timer nodes dial))
  by_cases hWanted : wanted picks = []
  · have hStep := clientStep_refused s.agent hInt hWanted timer nodes dial
    rw [← hMessage] at hStep
    refine h.at j ?_ (fun i hi => ⟨rfl, ?_, ?_, ?_⟩)
      ⟨?_, hSent, (h.job j).message, (h.job j).isInt⟩ rfl fun hUnborn => hUnborn
    · simp only [System.runAgent, hStep]
      exact h.tidy
    · rw [hLine, List.filterMap_cons]
      simp [Command.about, Ne.symm hi, System.runAgent]
    · simp only [System.runAgent, hStep, repliesOf, List.filterMap_append]
      simp [Reply.about, listToInteger_itoa, Ne.symm hi]
    · simp only [System.runAgent, hStep]
    · have hDown' : downstream ({ s with toAgent := rest }.runAgent
          (.erlang message timer nodes dial)) j = downstream s j ++ [.denied] := by
        simp only [downstream, System.runAgent, hStep, repliesOf, List.filterMap_append]
        simp [Reply.about, listToInteger_itoa, noticeOf]
      rw [hDown', hDown]
      simp only [System.runAgent, hStep, hState]
      exact ⟨hFin', .inr ⟨hReq', .inr (.inr ⟨hPhase, .inl rfl⟩)⟩⟩
  · obtain ⟨reqs, hReqs, hMove, hWaiting, hSilent⟩ :=
      clientStep_accepted h.tidy hInt (phase_eq_none.mp hPhase) hWanted timer nodes dial
    rw [← hMessage] at hMove hWaiting hSilent
    have hPrinted := printed_move h.tidy hMove fun _ hSame => hReqs (Cause.request.inj hSame).2
    refine ⟨hMove.tidy h.tidy, fun i => ?_, h.first, h.unborn⟩
    by_cases hi : i = j
    · subst hi
      refine ⟨?_, hSent, (h.job i).message, (h.job i).isInt⟩
      have hDown' : downstream ({ s with toAgent := rest }.runAgent
          (.erlang message timer nodes dial)) i = downstream s i :=
        downstream_silent (s := { s with toAgent := rest }) hPrinted hSilent
      rw [hDown', hDown]
      simp only [System.runAgent, hState, hWaiting]
      exact ⟨hFin', .inr ⟨hReq', .inl ⟨rfl, rfl⟩⟩⟩
    · have hOther : Command.about i (.request j message) = none := by
        simp [Command.about, Ne.symm hi]
      refine (sameFor_read h hLine hOther).runAgent h.tidy hMove.moves hPrinted ?_
        (by rintro ⟨⟩)
      intro hSame
      exact hi (Option.some.inj hSame).symm

/-! ## A job works only while its resources are held -/

/-- The agent answers JOB_STATUS only for a job it still has, and JobIds fit in
an `int`. -/
def Timely (s : System) : Event → Prop
  | .agentReads _ _ _ =>
      match s.toAgent with
      | .status j :: _ => ∃ job ∈ s.agent.jobs, job.jobId = j
      | _ => True
  | .generate _ => s.nextJobId < 2 ^ 31
  | _ => True

instance (s : System) : ∀ e, Decidable (Timely s e)
  | .agentReads _ _ _ =>
      match hLine : s.toAgent with
      | .status j :: _ =>
          decidable_of_iff (∃ job ∈ s.agent.jobs, job.jobId = j) (by simp [Timely, hLine])
      | [] => isTrue (by simp [Timely, hLine])
      | .request _ _ :: _ => isTrue (by simp [Timely, hLine])
      | .release _ :: _ => isTrue (by simp [Timely, hLine])
      | .getNodes :: _ => isTrue (by simp [Timely, hLine])
  | .generate _ => inferInstanceAs (Decidable (s.nextJobId < 2 ^ 31))
  | .ask => isTrue trivial
  | .heartbeat _ => isTrue trivial
  | .take _ => isTrue trivial
  | .wake _ => isTrue trivial
  | .finish _ => isTrue trivial
  | .fromJob _ => isTrue trivial
  | .fromGenerator => isTrue trivial
  | .fromAgent => isTrue trivial
  | .agentRuns _ => isTrue trivial

theorem Good.step {s : System} (h : Good s) {e : Event} (hTimely : Timely s e) :
    Good (schedStep s e) := by
  cases e with
  | ask =>
      simp only [schedStep]
      split
      · exact h.same h.tidy (fun j => ⟨rfl, rfl, rfl, rfl⟩) rfl
      · exact h
  | generate picks => exact h.generate picks hTimely
  | heartbeat j => exact h.heartbeat j
  | take j => exact h.take j
  | wake j => exact h.wake j
  | finish j => exact h.finish j
  | fromJob j => exact h.fromJob j
  | fromGenerator =>
      simp only [schedStep]
      split
      · refine h.same h.tidy (fun j => ⟨rfl, ?_, rfl, rfl⟩) rfl
        simp [Command.about]
      · exact h
  | fromAgent => exact h.fromAgent
  | agentRuns e => exact h.agentRuns e
  | agentReads timer nodes dial =>
      simp only [schedStep]
      cases hLine : s.toAgent with
      | nil => exact h
      | cons c rest =>
          dsimp only
          cases c with
          | request j message => exact h.readsRequest hLine timer nodes dial
          | status j =>
              simp only [Timely, hLine] at hTimely
              exact h.readsStatus hLine timer nodes dial hTimely
          | release j => exact h.readsRelease hLine timer nodes dial
          | getNodes => exact h.readsNodes hLine timer nodes dial

theorem good_init : Good System.init where
  tidy := tidy_init
  job j := by
    constructor
    · refine ⟨rfl, rfl, phase_eq_none.mpr ?_⟩
      simp [ClientState.jobs, ClientState.init, System.init]
    · intro message h
      simp [upstream, System.init] at h
    · exact fun h => absurd rfl h
    · exact fun h => absurd rfl h
  first := Int.le_refl _
  unborn _ _ := rfl

/-- Every working job is held: the agent has its job with nothing left to ask for. -/
def HeldWhileWorking (s : System) : Prop :=
  ∀ j, (s.proc j).state = .working → ∃ job ∈ s.agent.jobs, job.jobId = j ∧ job.nextReq = []

/-- The JOB_REQUEST the coordinator sends next for a JobId is for a job the agent
does not have. -/
def RequestsAbsent (s : System) : Prop :=
  ∀ j message rest, (s.proc j).outbox = .registerAndRequest message :: rest →
    ∀ job ∈ s.agent.jobs, job.jobId ≠ j

/-- **A job works only while its resources are held**, and no JOB_REQUEST is sent
for a job the agent has, in every state of every run in which the agent handles
a JOB_STATUS only while it has that job. -/
theorem works_while_held {es : List Event} (hTimely : Meets schedStep Timely System.init es) :
    HeldWhileWorking (run schedStep System.init es) ∧
      RequestsAbsent (run schedStep System.init es) := by
  have hGood : Good (run schedStep System.init es) :=
    run_invariant Good (fun _ _ h hOk => h.step hOk) good_init hTimely
  constructor
  · intro j hWorking
    have hStanding := (hGood.job j).standing
    rw [hWorking] at hStanding
    obtain ⟨job, hJob, hId, hNext⟩ := phase_eq_some.mp hStanding.2.2.1
    exact ⟨job, hJob, hId, by simpa using hNext⟩
  · intro j message rest hOutbox
    have hRequest := (hGood.job j).standing.request (by
      rw [upstream, hOutbox, requests, List.countP_append, List.countP_cons_of_pos rfl]
      omega)
    exact phase_eq_none.mp hRequest.2.2.2.1

/-- Two units of cpu from one node. -/
def twoCpus : Picks := fun type =>
  { ip := "10.0.0.1".toList
    quantity := if type = .cpu then 2 else 0
    isIp := isIp_ten
    small := by split <;> decide }

/-- The generator makes the first job, and its JOB_REQUEST reaches the agent. -/
def firstJob : List Event :=
  [.ask, .fromGenerator, .agentReads 0 (tablahashCreate _) .noSocket, .fromAgent,
    .generate (some twoCpus), .fromJob 1001, .agentReads 0 (tablahashCreate _) (.connected 5)]

/-- The job is granted, its status is confirmed once more, and it starts to work. -/
def promptJob : List Event :=
  firstJob ++ [.heartbeat 1001, .fromJob 1001,
    .agentRuns (.line 5 "GRANTED 1001\n".toList 3 .noSocket),
    .agentReads 3 (tablahashCreate _) .noSocket, .fromAgent, .take 1001]

theorem works_while_held_promptJob :
    ((run schedStep System.init promptJob).proc 1001).state = .working ∧
      HeldWhileWorking (run schedStep System.init promptJob) := by
  have hTimely : Meets schedStep Timely System.init promptJob := by
    decide +kernel
  exact ⟨by decide +kernel, (works_while_held hTimely).1⟩

/-- The sweep ends the job while a heartbeat is on its way, so the process is told
of two timeouts and relaunches the job twice. -/
def staleTimeout : List Event :=
  firstJob ++ [.heartbeat 1001, .fromJob 1001, .agentRuns (.sweep 40),
    .agentReads 40 (tablahashCreate _) .noSocket, .fromAgent, .fromAgent,
    .take 1001, .wake 1001, .fromJob 1001, .agentReads 41 (tablahashCreate _) (.connected 6),
    .take 1001, .wake 1001]

/-- The second relaunch reaches the agent after the first one was granted. -/
def staleGrant : List Event :=
  staleTimeout ++ [.agentRuns (.line 6 "GRANTED 1001\n".toList 42 .noSocket), .fromAgent,
    .take 1001, .fromJob 1001, .agentReads 43 (tablahashCreate _) (.connected 7)]

theorem stale_timeout_relaunches_twice :
    ¬ RequestsAbsent (run schedStep System.init staleTimeout) ∧
      ¬ HeldWhileWorking (run schedStep System.init staleGrant) := by
  constructor
  · intro h
    have hOutbox : ((run schedStep System.init staleTimeout).proc 1001).outbox =
        [.registerAndRequest (jobRequestFormat 1001 twoCpus)] := by decide +kernel
    have hThere : ∃ job ∈ (run schedStep System.init staleTimeout).agent.jobs,
        job.jobId = 1001 := by decide +kernel
    obtain ⟨job, hJob, hId⟩ := hThere
    exact h 1001 _ _ hOutbox job hJob hId
  · intro h
    have hWorking : ((run schedStep System.init staleGrant).proc 1001).state = .working := by
      decide +kernel
    have hWaiting : ∀ job ∈ (run schedStep System.init staleGrant).agent.jobs,
        job.nextReq ≠ [] := by decide +kernel
    obtain ⟨job, hJob, -, hNext⟩ := h 1001 hWorking
    exact hWaiting job hJob hNext

end ResourceAgent.Ports.Scheduler
