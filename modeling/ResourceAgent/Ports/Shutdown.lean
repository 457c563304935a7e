import ResourceAgent.Ports.Coordinator
import ResourceAgent.Verified.Potential

/-!
# The end of the scheduler's connection

When the socket closes or fails, the coordinator sends `cancelled` to every process in
`Jobs_Map` and leaves its loop.  The processes are still there, wherever they were: in
`job_loop` with messages before the `cancelled`, asleep before a relaunch, at work.  What they
send from now on reaches nobody.

`cancelled` is the last message a process ever gets, so it is kept beside the mailbox.  An
`after` of `job_loop` fires only when no message is there.

`shutdown_ends_the_registered`: the processes in the map end, each after a number of its own
steps that is fixed by then; a process whose registration the coordinator has not handled is
told nothing and stays in `job_loop` for good; nothing more is sent to the agent, and the
generator starts at most one more job.
-/

namespace ResourceAgent.Ports.Shutdown

open ResourceAgent.Ports.HashTable
open ResourceAgent.Ports.Records
open ResourceAgent.Ports.Wire
open ResourceAgent.Ports.Client
open ResourceAgent.Ports.JobRequest
open ResourceAgent.Ports.Scheduler
open ResourceAgent.Ports.Coordinator
open ResourceAgent.Verified.CText
open ResourceAgent.Verified.Runs
open ResourceAgent.Verified.Potential

/-! ## After the loop -/

/-- The system without its coordinator. -/
structure Ending where
  system : System
  /-- `cancelled` is the last message in the mailbox of this process -/
  cancelled : Int → Bool

/-- `coordinator_loop` on `{tcp_closed, Socket}` or `{tcp_error, Socket, _}`. -/
def close (s : System) : Ending := ⟨{ s with alive := false }, s.jobsMap⟩

/-- `job_loop` comes to `cancelled`. -/
def AtCancelled (e : Ending) (j : Int) : Prop :=
  (e.system.proc j).state = .loop ∧ (e.system.proc j).mailbox = [] ∧ e.cancelled j = true

instance (e : Ending) (j : Int) : Decidable (AtCancelled e j) :=
  inferInstanceAs (Decidable (_ ∧ _ ∧ _))

def endingStep (e : Ending) : Event → Ending
  | .take j =>
      if AtCancelled e j then
        { system := e.system.setProc j { e.system.proc j with state := .ended }
          cancelled := Function.update e.cancelled j false }
      else { e with system := schedStep e.system (.take j) }
  | .heartbeat j =>
      if (e.system.proc j).mailbox = [] ∧ e.cancelled j = false then
        { e with system := schedStep e.system (.heartbeat j) }
      else e
  | event => { e with system := schedStep e.system event }

/-- The event is a step of the process `j` that gets it further. -/
def Advances (e : Ending) (j : Int) : Event → Prop
  | .take j' => j' = j ∧ (e.system.proc j).state = .loop ∧
      ((e.system.proc j).mailbox ≠ [] ∨ e.cancelled j = true)
  | .wake j' => j' = j ∧ (e.system.proc j).state = .sleeping
  | .finish j' => j' = j ∧ (e.system.proc j).state = .working
  | _ => False

instance (e : Ending) (j : Int) (event : Event) : Decidable (Advances e j event) := by
  cases event <;> unfold Advances <;> infer_instance

/-- How many of its steps a process can still take. -/
def stepsLeft (p : JobProcess) : Nat :=
  match p.state with
  | .ended => 0
  | .loop => 2 * p.mailbox.length + 1
  | _ => 2 * p.mailbox.length + 2

/-- The steps that the process `j` takes in a run. -/
def advances (j : Int) : Ending → List Event → Nat :=
  spent endingStep fun e event => if Advances e j event then 1 else 0

/-! ## Who is in the map -/

/-- The process of a JobId in the map: it was denied, or is not over, or its `finished` is the
last thing it has sent. -/
inductive Enrolled (p : JobProcess) : Prop where
  | staying (hBorn : p.state ≠ .unborn) (hNone : .finished ∉ p.outbox)
  | leaving (sent : List ToCoordinator) (hState : p.state = .ended)
      (hOutbox : p.outbox = sent ++ [.finished]) (hNone : .finished ∉ sent)

structure Rostered (s : System) : Prop where
  listed : ∀ j, s.jobsMap j = true → Enrolled (s.proc j)
  unlisted : ∀ j, s.jobsMap j = false → Unlisted (s.proc j)
  later : ∀ j, s.nextJobId ≤ j → (s.proc j).state = .unborn

section

variable {p : JobProcess}

theorem Enrolled.born (h : Enrolled p) : p.state ≠ .unborn := by
  cases h with
  | staying hBorn _ => exact hBorn
  | leaving _ hState _ _ =>
      rw [hState]
      decide

/-- A process that is not over changes its state, and sends something else than `finished`. -/
theorem Enrolled.go (h : Enrolled p) (hState : p.state ≠ .ended) {state : JobState}
    (hBorn : state ≠ .unborn) {sent : List ToCoordinator} (hSent : .finished ∉ sent) :
    Enrolled { p with state := state, outbox := p.outbox ++ sent } := by
  cases h with
  | staying _ hNone => exact .staying hBorn (by simpa using ⟨hNone, hSent⟩)
  | leaving _ hOver _ _ => exact absurd hOver hState

theorem Enrolled.take (h : Enrolled p) : Enrolled (takeNotice p) := by
  have hMove : ∀ {rest : List Notice} (state : JobState), p.state = .loop → state ≠ .unborn →
      Enrolled { p with state := state, mailbox := rest } := by
    intro rest state hLoop hBorn
    cases h with
    | staying _ hNone => exact .staying hBorn hNone
    | leaving _ hOver _ _ =>
        rw [hLoop] at hOver
        cases hOver
  unfold takeNotice
  split
  · exact hMove .working (by assumption) (by decide)
  · exact hMove .ended (by assumption) (by decide)
  · exact hMove .sleeping (by assumption) (by decide)
  · exact h

theorem Enrolled.mail (h : Enrolled p) (mailbox : List Notice) :
    Enrolled { p with mailbox := mailbox } := by
  cases h with
  | staying hBorn hNone => exact .staying hBorn hNone
  | leaving sent hState hOutbox hNone => exact .leaving sent hState hOutbox hNone

/-- The coordinator handles a message other than `finished`. -/
theorem Enrolled.sent (h : Enrolled p) {m : ToCoordinator} {rest : List ToCoordinator}
    (hOutbox : p.outbox = m :: rest) (hm : m ≠ .finished) : Enrolled { p with outbox := rest } := by
  cases h with
  | staying hBorn hNone =>
      rw [hOutbox] at hNone
      exact .staying hBorn fun hMem => hNone (List.mem_cons_of_mem _ hMem)
  | leaving sent hState hSent hNone =>
      rw [hOutbox] at hSent
      cases sent with
      | nil => exact absurd (List.cons.inj hSent).1 hm
      | cons m' sent =>
          exact .leaving sent hState (List.cons.inj hSent).2 fun hMem =>
            hNone (List.mem_cons_of_mem _ hMem)

/-- The coordinator handles `finished`. -/
theorem Enrolled.finished (h : Enrolled p) {rest : List ToCoordinator}
    (hOutbox : p.outbox = .finished :: rest) : p.state = .ended ∧ rest = [] := by
  cases h with
  | staying _ hNone =>
      rw [hOutbox] at hNone
      exact absurd List.mem_cons_self hNone
  | leaving sent hState hSent hNone =>
      rw [hOutbox] at hSent
      cases sent with
      | nil => exact ⟨hState, (List.cons.inj hSent).2⟩
      | cons m sent =>
          rw [← (List.cons.inj hSent).1] at hNone
          exact absurd List.mem_cons_self hNone

end

section

variable {s : System}

theorem rostered_init : Rostered System.init where
  listed _ hListed := nomatch hListed
  unlisted _ _ := .unborn rfl rfl rfl
  later _ _ := rfl

theorem Rostered.next (h : Rostered s) : s.jobsMap s.nextJobId = false := by
  by_contra hListed
  exact (h.listed _ (by simpa using hListed)).born (h.later _ (le_refl _))

theorem Rostered.lt_next (h : Rostered s) {j : Int} (hBorn : (s.proc j).state ≠ .unborn) :
    j < s.nextJobId := by
  by_contra hLater
  exact hBorn (h.later j (by omega))

/-- One process moves, and may enter the map or leave it. -/
theorem Rostered.move (h : Rostered s) {s' : System} {j : Int} {p : JobProcess} {b : Bool}
    (hBorn : (s.proc j).state ≠ .unborn) (hProc : s'.proc = Function.update s.proc j p)
    (hMap : s'.jobsMap = Function.update s.jobsMap j b) (hNext : s'.nextJobId = s.nextJobId)
    (hListed : b = true → Enrolled p) (hUnlisted : b = false → Unlisted p) : Rostered s' where
  listed j' hj := by
    rw [hMap] at hj
    rw [hProc]
    by_cases hSame : j' = j
    · subst hSame
      rw [Function.update_self] at hj ⊢
      exact hListed hj
    · rw [Function.update_of_ne hSame] at hj ⊢
      exact h.listed j' hj
  unlisted j' hj := by
    rw [hMap] at hj
    rw [hProc]
    by_cases hSame : j' = j
    · subst hSame
      rw [Function.update_self] at hj ⊢
      exact hUnlisted hj
    · rw [Function.update_of_ne hSame] at hj ⊢
      exact h.unlisted j' hj
  later j' hj := by
    rw [hNext] at hj
    have hSame : j' ≠ j := by
      rintro rfl
      exact hBorn (h.later j' hj)
    rw [hProc, Function.update_of_ne hSame]
    exact h.later j' hj

/-- One process moves. -/
theorem Rostered.setProc (h : Rostered s) {j : Int} {p : JobProcess}
    (hBorn : (s.proc j).state ≠ .unborn)
    (hListed : s.jobsMap j = true → Enrolled p) (hUnlisted : s.jobsMap j = false → Unlisted p) :
    Rostered (s.setProc j p) :=
  h.move hBorn rfl (Function.update_eq_self j s.jobsMap).symm rfl hListed hUnlisted

/-- The processes and the map stay. -/
theorem Rostered.congr (h : Rostered s) {s' : System} (hProc : s'.proc = s.proc)
    (hMap : s'.jobsMap = s.jobsMap) (hNext : s'.nextJobId = s.nextJobId) : Rostered s' where
  listed j hj := hProc ▸ h.listed j (hMap ▸ hj)
  unlisted j hj := hProc ▸ h.unlisted j (hMap ▸ hj)
  later j hj := hProc ▸ h.later j (hNext ▸ hj)

theorem Rostered.generate (h : Rostered s) (picks : Option Picks) :
    Rostered (schedStep s (.generate picks)) := by
  simp only [schedStep]
  split
  · cases picks with
    | none => exact h.congr rfl rfl rfl
    | some picks =>
        refine ⟨fun j hj => ?_, fun j hj => ?_, fun j hj => ?_⟩
        · have hSame : j ≠ s.nextJobId := by
            rintro rfl
            have hNone := h.next
            rw [show s.jobsMap s.nextJobId = true from hj] at hNone
            cases hNone
          simpa [System.setProc, hSame] using h.listed j hj
        · by_cases hSame : j = s.nextJobId
          · subst hSame
            simp only [System.setProc, Function.update_self]
            exact .starting _ [] rfl rfl List.not_mem_nil rfl
          · simpa [System.setProc, hSame] using h.unlisted j hj
        · have hLater : s.nextJobId + 1 ≤ j := hj
          have hSame : j ≠ s.nextJobId := by omega
          simpa [System.setProc, hSame] using h.later j (by omega)
  · exact h

/-- A process outside of the map that is in `job_loop` waits to be registered. -/
theorem unlisted_heartbeat {p : JobProcess} (h : Unlisted p) (hLoop : p.state = .loop) :
    Unlisted { p with outbox := p.outbox ++ [.status] } := by
  cases h with
  | unborn hState _ _ =>
      rw [hLoop] at hState
      cases hState
  | starting message rest hState hOutbox hRest hMailbox =>
      refine .starting message (rest ++ [.status]) hState (by simp [hOutbox]) ?_ hMailbox
      simpa using hRest
  | gone hState _ =>
      rw [hLoop] at hState
      cases hState

theorem unlisted_state {p : JobProcess} (h : Unlisted p) :
    p.state = .unborn ∨ p.state = .loop ∨ p.state = .ended := by
  cases h with
  | unborn hState _ _ => exact .inl hState
  | starting _ _ hState _ _ _ => exact .inr (.inl hState)
  | gone hState _ => exact .inr (.inr hState)

theorem Rostered.fromJob (h : Rostered s) (j : Int) : Rostered (schedStep s (.fromJob j)) := by
  simp only [schedStep, handleJob]
  split
  swap
  · exact h
  split
  · exact h
  rename_i m rest hOutbox
  have hMap : s.jobsMap = Function.update s.jobsMap j (s.jobsMap j) :=
    (Function.update_eq_self j s.jobsMap).symm
  cases hListed : s.jobsMap j with
  | true =>
      have hEnrolled := h.listed j hListed
      cases m with
      | registerAndRequest message =>
          exact h.move hEnrolled.born rfl rfl rfl (fun _ => hEnrolled.sent hOutbox (by simp))
            (by simp)
      | status =>
          rw [hListed] at hMap
          exact h.move hEnrolled.born rfl hMap rfl (fun _ => hEnrolled.sent hOutbox (by simp))
            (by simp)
      | finished =>
          obtain ⟨hState, rfl⟩ := hEnrolled.finished hOutbox
          exact h.move hEnrolled.born rfl rfl rfl (by simp) fun _ => .gone hState rfl
  | false =>
      -- only a registration can be on its way from outside of the map
      obtain ⟨hState, ⟨message, rfl⟩, hRest, -⟩ := (h.unlisted j hListed).head hOutbox
      have hBorn : (s.proc j).state ≠ .unborn := by
        rw [hState]
        decide
      exact h.move hBorn rfl rfl rfl (fun _ => .staying hBorn hRest) (by simp)

theorem Rostered.fromAgent (h : Rostered s) : Rostered (schedStep s .fromAgent) := by
  simp only [schedStep, handleAgent]
  split
  swap
  · exact h
  split
  · exact h
  · split <;> exact h.congr rfl rfl rfl
  · split
    · exact h.congr rfl rfl rfl
    · split
      · exact h.congr rfl rfl rfl
      · rename_i jobId _
        split
        · rename_i hListed
          have hEnrolled := h.listed jobId hListed
          refine h.move hEnrolled.born rfl (Function.update_eq_self jobId s.jobsMap).symm rfl
            (fun _ => hEnrolled.mail _) fun hNone => ?_
          rw [hListed] at hNone
          cases hNone
        · exact h.congr rfl rfl rfl

theorem Rostered.step (h : Rostered s) (event : Event) : Rostered (schedStep s event) := by
  cases event with
  | ask =>
      simp only [schedStep]
      split <;> exact h.congr rfl rfl rfl
  | generate picks => exact h.generate picks
  | heartbeat j =>
      simp only [schedStep]
      split
      · rename_i hLoop
        have hState : (s.proc j).state ≠ .ended := by simp [hLoop]
        have hBorn : (s.proc j).state ≠ .unborn := by simp [hLoop]
        exact h.setProc hBorn (fun hj => (h.listed j hj).go hState hBorn (by simp)) fun hj =>
          unlisted_heartbeat (h.unlisted j hj) hLoop
      · exact h
  | take j =>
      by_cases hBorn : (s.proc j).state = .unborn
      · have hNone : takeNotice (s.proc j) = s.proc j := by simp [takeNotice, hBorn]
        simp only [schedStep, hNone, System.setProc, Function.update_eq_self]
        exact h
      · refine h.setProc hBorn (fun hj => (h.listed j hj).take) fun hj => ?_
        rw [(h.unlisted j hj).take]
        exact h.unlisted j hj
  | wake j =>
      simp only [schedStep]
      split
      · rename_i hSleeping
        have hState : (s.proc j).state ≠ .ended := by simp [hSleeping]
        refine h.setProc (by simp [hSleeping])
          (fun hj => (h.listed j hj).go hState (by decide) (by simp)) fun hj => ?_
        rcases unlisted_state (h.unlisted j hj) with hCase | hCase | hCase <;>
          (rw [hCase] at hSleeping; cases hSleeping)
      · exact h
  | finish j =>
      simp only [schedStep]
      split
      · rename_i hWorking
        refine h.setProc (by simp [hWorking]) (fun hj => ?_) fun hj => ?_
        · cases h.listed j hj with
          | staying _ hNone => exact .leaving _ rfl rfl hNone
          | leaving _ hOver _ _ =>
              rw [hWorking] at hOver
              cases hOver
        · rcases unlisted_state (h.unlisted j hj) with hCase | hCase | hCase <;>
            (rw [hCase] at hWorking; cases hWorking)
      · exact h
  | fromJob j => exact h.fromJob j
  | fromGenerator =>
      simp only [schedStep]
      split <;> exact h.congr rfl rfl rfl
  | fromAgent => exact h.fromAgent
  | agentReads timer nodes dial =>
      simp only [schedStep]
      split <;> exact h.congr rfl rfl rfl
  | agentRuns event =>
      cases event <;> exact h.congr rfl rfl rfl

end

/-! ## The processes that were told -/

/-- The process of `j` was told, and nobody else will write to it. -/
structure Told (e : Ending) (j : Int) : Prop where
  alone : e.system.alive = false
  born : (e.system.proc j).state ≠ .unborn
  before : j < e.system.nextJobId
  told : e.cancelled j = true ∨ (e.system.proc j).state = .ended

section

variable {e : Ending} {j : Int}

/-- What a step of the system leaves of a process, when the coordinator is gone. -/
theorem proc_schedStep {s : System} (hAlone : s.alive = false) (hBefore : j < s.nextJobId)
    {event : Event} (hOther : event ≠ .take j ∧ event ≠ .heartbeat j ∧ event ≠ .wake j ∧
      event ≠ .finish j) :
    (schedStep s event).proc j = s.proc j := by
  have hSet : ∀ j' p, j' ≠ j → (s.setProc j' p).proc j = s.proc j := by
    intro j' p hNe
    exact Function.update_of_ne hNe.symm ..
  obtain ⟨hTake, hHeartbeat, hWake, hFinish⟩ := hOther
  cases event with
  | ask =>
      simp only [schedStep]
      split <;> rfl
  | generate picks =>
      simp only [schedStep]
      split
      · cases picks with
        | none => rfl
        | some picks => exact Function.update_of_ne (by omega) ..
      · rfl
  | heartbeat j' =>
      simp only [schedStep]
      split
      · exact hSet j' _ fun hSame => hHeartbeat (by rw [hSame])
      · rfl
  | take j' => exact hSet j' _ fun hSame => hTake (by rw [hSame])
  | wake j' =>
      simp only [schedStep]
      split
      · exact hSet j' _ fun hSame => hWake (by rw [hSame])
      · rfl
  | finish j' =>
      simp only [schedStep]
      split
      · exact hSet j' _ fun hSame => hFinish (by rw [hSame])
      · rfl
  | fromJob j' => simp [schedStep, handleJob, hAlone]
  | fromGenerator => simp [schedStep, hAlone]
  | fromAgent => simp [schedStep, handleAgent, hAlone]
  | agentReads timer nodes dial =>
      simp only [schedStep]
      split <;> rfl
  | agentRuns event => cases event <;> rfl

/-- The coordinator does not come back, and ids are not taken back. -/
theorem schedStep_alone {s : System} (hAlone : s.alive = false) (event : Event) :
    (schedStep s event).alive = false ∧ s.nextJobId ≤ (schedStep s event).nextJobId := by
  cases event with
  | ask =>
      simp only [schedStep]
      split <;> exact ⟨hAlone, le_refl _⟩
  | generate picks =>
      simp only [schedStep]
      split
      · cases picks with
        | none => exact ⟨hAlone, le_refl _⟩
        | some picks => exact ⟨hAlone, Int.le_add_one (le_refl _)⟩
      · exact ⟨hAlone, le_refl _⟩
  | heartbeat j' =>
      simp only [schedStep]
      split <;> exact ⟨hAlone, le_refl _⟩
  | take j' => exact ⟨hAlone, le_refl _⟩
  | wake j' =>
      simp only [schedStep]
      split <;> exact ⟨hAlone, le_refl _⟩
  | finish j' =>
      simp only [schedStep]
      split <;> exact ⟨hAlone, le_refl _⟩
  | fromJob j' => simp [schedStep, handleJob, hAlone]
  | fromGenerator => simp [schedStep, hAlone]
  | fromAgent => simp [schedStep, handleAgent, hAlone]
  | agentReads timer nodes dial =>
      simp only [schedStep]
      split <;> exact ⟨hAlone, le_refl _⟩
  | agentRuns event => cases event <;> exact ⟨hAlone, le_refl _⟩

/-- A step of the ending is one of the system, or the process of some `j` takes `cancelled`, or
a heartbeat that does not come. -/
theorem endingStep_cases (e : Ending) (event : Event) :
    (endingStep e event = { e with system := schedStep e.system event } ∧
        (∀ j, event = .take j → ¬ AtCancelled e j) ∧
        ∀ j, event = .heartbeat j → (e.system.proc j).mailbox = [] ∧ e.cancelled j = false) ∨
      (∃ j, event = .take j ∧ AtCancelled e j ∧ endingStep e event =
        { system := e.system.setProc j { e.system.proc j with state := .ended }
          cancelled := Function.update e.cancelled j false }) ∨
      (∃ j, event = .heartbeat j ∧ endingStep e event = e) := by
  cases event with
  | take j =>
      by_cases hAt : AtCancelled e j
      · exact .inr (.inl ⟨j, rfl, hAt, if_pos hAt⟩)
      · refine .inl ⟨if_neg hAt, fun j' hj' => ?_, by simp⟩
        cases hj'
        exact hAt
  | heartbeat j =>
      by_cases hEmpty : (e.system.proc j).mailbox = [] ∧ e.cancelled j = false
      · refine .inl ⟨if_pos hEmpty, by simp, fun j' hj' => ?_⟩
        cases hj'
        exact hEmpty
      · exact .inr (.inr ⟨j, rfl, if_neg hEmpty⟩)
  | _ => exact .inl ⟨rfl, by simp, by simp⟩

theorem endingStep_alone (hAlone : e.system.alive = false) (event : Event) :
    (endingStep e event).system.alive = false ∧
      e.system.nextJobId ≤ (endingStep e event).system.nextJobId := by
  rcases endingStep_cases e event with ⟨hEq, -⟩ | ⟨j, -, -, hEq⟩ | ⟨j, -, hEq⟩
  · rw [hEq]
    exact schedStep_alone hAlone event
  · rw [hEq]
    exact ⟨hAlone, le_refl _⟩
  · rw [hEq]
    exact ⟨hAlone, le_refl _⟩

/-- A process that was told and takes the next message. -/
theorem told_take (h : Told e j) (hAt : ¬ AtCancelled e j) :
    (if Advances e j (.take j) then 1 else 0) + stepsLeft (takeNotice (e.system.proc j)) ≤
        stepsLeft (e.system.proc j) ∧
      (takeNotice (e.system.proc j)).state ≠ .unborn ∧
      (e.cancelled j = true ∨ (takeNotice (e.system.proc j)).state = .ended) := by
  have hBorn := h.born
  have hTold := h.told
  generalize hp : e.system.proc j = p at *
  obtain ⟨state, message, outbox, mailbox⟩ := p
  cases state with
  | loop =>
      cases mailbox with
      | nil =>
          have hCancelled : e.cancelled j = false := by
            by_contra hSet
            exact hAt ⟨by rw [hp], by rw [hp], by simpa using hSet⟩
          simp [hCancelled] at hTold
      | cons n rest =>
          have hOne : (if Advances e j (.take j) then 1 else 0) ≤ 1 := by split <;> omega
          have hCancelled : e.cancelled j = true := hTold.resolve_right (by simp)
          cases n with
          | denied =>
              refine ⟨?_, by simp [takeNotice], .inr rfl⟩
              simp only [takeNotice, stepsLeft, List.length_cons]
              omega
          | _ =>
              refine ⟨?_, by simp [takeNotice], .inl hCancelled⟩
              simp only [takeNotice, stepsLeft, List.length_cons]
              omega
  | _ =>
      have hNo : ¬ Advances e j (.take j) := by
        rintro ⟨-, hLoop, -⟩
        rw [hp] at hLoop
        cases hLoop
      rw [if_neg hNo, Nat.zero_add]
      exact ⟨le_refl _, hBorn, hTold⟩

/-- **One step of the rest of the system** costs a process that was told the steps it takes. -/
theorem Told.step (h : Told e j) (event : Event) :
    Told (endingStep e event) j ∧ (if Advances e j event then 1 else 0) +
      stepsLeft ((endingStep e event).system.proc j) ≤ stepsLeft (e.system.proc j) := by
  obtain ⟨hAlone, hNext⟩ := endingStep_alone h.alone event
  have hBefore : j < (endingStep e event).system.nextJobId := by
    have := h.before
    omega
  rcases endingStep_cases e event with ⟨hEq, hTake, hHeartbeat⟩ | ⟨j', rfl, hAt, hEq⟩ |
    ⟨j', rfl, hEq⟩
  · by_cases hOther : event ≠ .take j ∧ event ≠ .heartbeat j ∧ event ≠ .wake j ∧ event ≠ .finish j
    · have hProc : (endingStep e event).system.proc j = e.system.proc j := by
        rw [hEq]
        exact proc_schedStep h.alone h.before hOther
      have hNo : ¬ Advances e j event := by
        intro hAdvances
        cases event with
        | take j' => exact hOther.1 (by rw [hAdvances.1])
        | wake j' => exact hOther.2.2.1 (by rw [hAdvances.1])
        | finish j' => exact hOther.2.2.2 (by rw [hAdvances.1])
        | _ => exact hAdvances
      refine ⟨⟨hAlone, hProc ▸ h.born, hBefore, ?_⟩, ?_⟩
      · rw [hProc, hEq]
        exact h.told
      · rw [hProc, if_neg hNo, Nat.zero_add]
    · have hCases :
          event = .take j ∨ event = .heartbeat j ∨ event = .wake j ∨ event = .finish j := by
        by_contra hNone
        simp only [not_or] at hNone
        exact hOther hNone
      rcases hCases with rfl | rfl | rfl | rfl
      · obtain ⟨hCost, hBorn, hTold⟩ := told_take h (hTake j rfl)
        have hProc : (endingStep e (.take j)).system.proc j = takeNotice (e.system.proc j) := by
          rw [hEq]
          exact Function.update_self ..
        refine ⟨⟨hAlone, hProc ▸ hBorn, hBefore, ?_⟩, hProc ▸ hCost⟩
        rw [hProc, hEq]
        exact hTold
      · -- a heartbeat comes only where no `cancelled` is left
        have hOver := h.told.resolve_left (by simp [(hHeartbeat j rfl).2])
        have hProc : (endingStep e (.heartbeat j)).system.proc j = e.system.proc j := by
          rw [hEq]
          simp only [schedStep, hOver, reduceCtorEq, if_false]
        refine ⟨⟨hAlone, hProc ▸ h.born, hBefore, .inr (hProc ▸ hOver)⟩, ?_⟩
        rw [hProc, if_neg (by simp [Advances]), Nat.zero_add]
      · by_cases hSleeping : (e.system.proc j).state = .sleeping
        · have hProc : ((endingStep e (.wake j)).system.proc j).state = .loop ∧
              ((endingStep e (.wake j)).system.proc j).mailbox = (e.system.proc j).mailbox := by
            rw [hEq]
            simp [schedStep, hSleeping, System.setProc]
          have hTold := h.told.resolve_right (by simp [hSleeping])
          refine ⟨⟨hAlone, by simp [hProc.1], hBefore, .inl (by rw [hEq]; exact hTold)⟩, ?_⟩
          rw [if_pos ⟨rfl, hSleeping⟩]
          simp only [stepsLeft, hProc, hSleeping]
          omega
        · have hProc : (endingStep e (.wake j)).system.proc j = e.system.proc j := by
            rw [hEq]
            simp only [schedStep, hSleeping, if_false]
          refine ⟨⟨hAlone, hProc ▸ h.born, hBefore, ?_⟩, ?_⟩
          · rw [hProc, hEq]
            exact h.told
          · rw [hProc, if_neg fun hAdvances => hSleeping hAdvances.2, Nat.zero_add]
      · by_cases hWorking : (e.system.proc j).state = .working
        · have hProc : ((endingStep e (.finish j)).system.proc j).state = .ended := by
            rw [hEq]
            simp [schedStep, hWorking, System.setProc]
          refine ⟨⟨hAlone, by simp [hProc], hBefore, .inr hProc⟩, ?_⟩
          rw [if_pos ⟨rfl, hWorking⟩]
          simp only [stepsLeft, hProc, hWorking]
          omega
        · have hProc : (endingStep e (.finish j)).system.proc j = e.system.proc j := by
            rw [hEq]
            simp only [schedStep, hWorking, if_false]
          refine ⟨⟨hAlone, hProc ▸ h.born, hBefore, ?_⟩, ?_⟩
          · rw [hProc, hEq]
            exact h.told
          · rw [hProc, if_neg fun hAdvances => hWorking hAdvances.2, Nat.zero_add]
  · by_cases hSame : j' = j
    · subst hSame
      have hProc : ((endingStep e (.take j')).system.proc j').state = .ended := by
        rw [hEq]
        simp [System.setProc]
      refine ⟨⟨hAlone, by simp [hProc], hBefore, .inr hProc⟩, ?_⟩
      rw [if_pos ⟨rfl, hAt.1, .inr hAt.2.2⟩]
      simp only [stepsLeft, hProc, hAt.1]
      omega
    · have hProc : (endingStep e (.take j')).system.proc j = e.system.proc j := by
        rw [hEq]
        exact Function.update_of_ne (Ne.symm hSame) ..
      refine ⟨⟨hAlone, hProc ▸ h.born, hBefore, ?_⟩, ?_⟩
      · rw [hProc, hEq]
        simpa [Function.update_of_ne (Ne.symm hSame)] using h.told
      · rw [hProc, if_neg fun hAdvances => hSame hAdvances.1, Nat.zero_add]
  · rw [hEq]
    exact ⟨h, by rw [if_neg (by simp [Advances]), Nat.zero_add]⟩

/-- A process that was told and is not over can take a step. -/
theorem Told.goes (h : Told e j) (hState : (e.system.proc j).state ≠ .ended) :
    ∃ event, Advances e j event := by
  have hCancelled := h.told.resolve_right hState
  cases hCase : (e.system.proc j).state with
  | unborn => exact absurd hCase h.born
  | loop => exact ⟨.take j, rfl, hCase, .inr hCancelled⟩
  | sleeping => exact ⟨.wake j, rfl, hCase⟩
  | working => exact ⟨.finish j, rfl, hCase⟩
  | ended => exact absurd hCase hState

end

/-! ## The processes that were not told -/

/-- Nobody will ever write to the process of `j`. -/
structure Stranded (e : Ending) (j : Int) : Prop where
  alone : e.system.alive = false
  loop : (e.system.proc j).state = .loop
  mailbox : (e.system.proc j).mailbox = []
  untold : e.cancelled j = false
  before : j < e.system.nextJobId

section

variable {e : Ending} {j : Int}

/-- It goes on sending heartbeats. -/
theorem Stranded.step (h : Stranded e j) (event : Event) : Stranded (endingStep e event) j := by
  obtain ⟨hAlone, hNext⟩ := endingStep_alone h.alone event
  have hBefore : j < (endingStep e event).system.nextJobId := by
    have := h.before
    omega
  rcases endingStep_cases e event with ⟨hEq, -⟩ | ⟨j', rfl, hAt, hEq⟩ | ⟨j', rfl, hEq⟩
  · have hProc : ((schedStep e.system event).proc j).state = .loop ∧
        ((schedStep e.system event).proc j).mailbox = [] := by
      by_cases hOther : event ≠ .take j ∧ event ≠ .heartbeat j ∧ event ≠ .wake j ∧
          event ≠ .finish j
      · rw [proc_schedStep h.alone h.before hOther]
        exact ⟨h.loop, h.mailbox⟩
      · have hCases : event = .take j ∨ event = .heartbeat j ∨ event = .wake j ∨
            event = .finish j := by
          by_contra hNone
          simp only [not_or] at hNone
          exact hOther hNone
        rcases hCases with rfl | rfl | rfl | rfl
        · simp [schedStep, System.setProc, takeNotice, h.loop, h.mailbox]
        · simp [schedStep, System.setProc, h.loop, h.mailbox]
        · simp [schedStep, h.loop, h.mailbox]
        · simp [schedStep, h.loop, h.mailbox]
    rw [hEq] at hAlone hBefore ⊢
    exact ⟨hAlone, hProc.1, hProc.2, h.untold, hBefore⟩
  · have hNe : j ≠ j' := by
      rintro rfl
      have hTold := hAt.2.2
      rw [h.untold] at hTold
      cases hTold
    rw [hEq]
    refine ⟨h.alone, ?_, ?_, ?_, h.before⟩ <;> simp only [System.setProc, Function.update_of_ne hNe]
    · exact h.loop
    · exact h.mailbox
    · exact h.untold
  · rw [hEq]
    exact h

/-- The JobIds that can still be given out. -/
def nextAtMost (s : System) : Int :=
  s.nextJobId + if s.generator = .answered then 1 else 0

/-- Without the coordinator the generator gets no more nodes, and the agent no more lines. -/
theorem schedStep_quiet {s : System} (hAlone : s.alive = false) (event : Event) :
    nextAtMost (schedStep s event) ≤ nextAtMost s ∧ (schedStep s event).toAgent <:+ s.toAgent := by
  have hSame : ∀ {s' : System}, s'.nextJobId = s.nextJobId → s'.generator = s.generator →
      s'.toAgent = s.toAgent → nextAtMost s' ≤ nextAtMost s ∧ s'.toAgent <:+ s.toAgent := by
    intro s' hNext hGenerator hLines
    rw [nextAtMost, hNext, hGenerator, hLines]
    exact ⟨le_refl _, List.suffix_refl _⟩
  cases event with
  | ask =>
      simp only [schedStep]
      split
      · rename_i hIdle
        refine ⟨?_, List.suffix_refl _⟩
        simp [nextAtMost, hIdle]
      · exact hSame rfl rfl rfl
  | generate picks =>
      simp only [schedStep]
      split
      · rename_i hAnswered
        cases picks with
        | none =>
            refine ⟨?_, List.suffix_refl _⟩
            simp [nextAtMost, hAnswered]
        | some picks =>
            refine ⟨?_, List.suffix_refl _⟩
            simp [nextAtMost, hAnswered, System.setProc]
      · exact hSame rfl rfl rfl
  | heartbeat j =>
      simp only [schedStep]
      split <;> exact hSame rfl rfl rfl
  | take j => exact hSame rfl rfl rfl
  | wake j =>
      simp only [schedStep]
      split <;> exact hSame rfl rfl rfl
  | finish j =>
      simp only [schedStep]
      split <;> exact hSame rfl rfl rfl
  | fromJob j =>
      have hEq : schedStep s (.fromJob j) = s := by simp [schedStep, handleJob, hAlone]
      exact hSame (by rw [hEq]) (by rw [hEq]) (by rw [hEq])
  | fromGenerator =>
      have hEq : schedStep s .fromGenerator = s := by simp [schedStep, hAlone]
      exact hSame (by rw [hEq]) (by rw [hEq]) (by rw [hEq])
  | fromAgent =>
      have hEq : schedStep s .fromAgent = s := by simp [schedStep, handleAgent, hAlone]
      exact hSame (by rw [hEq]) (by rw [hEq]) (by rw [hEq])
  | agentReads timer nodes dial =>
      simp only [schedStep]
      split
      · exact hSame rfl rfl rfl
      · rename_i c rest hLines
        exact ⟨le_refl _, hLines ▸ List.suffix_cons c rest⟩
  | agentRuns event => cases event <;> exact hSame rfl rfl rfl

theorem endingStep_quiet (hAlone : e.system.alive = false) (event : Event) :
    nextAtMost (endingStep e event).system ≤ nextAtMost e.system ∧
      (endingStep e event).system.toAgent <:+ e.system.toAgent := by
  rcases endingStep_cases e event with ⟨hEq, -⟩ | ⟨j, -, -, hEq⟩ | ⟨j, -, hEq⟩
  · rw [hEq]
    exact schedStep_quiet hAlone event
  · rw [hEq]
    exact ⟨le_refl _, List.suffix_refl _⟩
  · rw [hEq]
    exact ⟨le_refl _, List.suffix_refl _⟩

end

/-- **The end of the connection ends the registered processes, and no others.**  After any run
and any events that follow the end: a process in the map takes no more steps than it had left
by then, and has ended or can take one; any other process that was started and has not ended
is in `job_loop` for good; no line is written to the agent; one more job is started at most. -/
theorem shutdown_ends_the_registered (es fs : List Event) :
    (∀ j, (run schedStep .init es).jobsMap j = true →
        advances j (close (run schedStep .init es)) fs ≤
            stepsLeft ((run schedStep .init es).proc j) ∧
          (((run endingStep (close (run schedStep .init es)) fs).system.proc j).state = .ended ∨
            ∃ event, Advances (run endingStep (close (run schedStep .init es)) fs) j event)) ∧
      (∀ j, (run schedStep .init es).jobsMap j = false →
        ((run schedStep .init es).proc j).state ≠ .unborn →
        ((run schedStep .init es).proc j).state ≠ .ended →
        ((run endingStep (close (run schedStep .init es)) fs).system.proc j).state = .loop) ∧
      (run endingStep (close (run schedStep .init es)) fs).system.toAgent <:+
        (run schedStep .init es).toAgent ∧
      (run endingStep (close (run schedStep .init es)) fs).system.nextJobId ≤
        (run schedStep .init es).nextJobId + 1 := by
  have hRostered : Rostered (run schedStep .init es) :=
    run_invariant_always Rostered (fun _ event h => h.step event) rostered_init es
  generalize run schedStep .init es = s at hRostered
  have hQuiet : (run endingStep (close s) fs).system.alive = false ∧
      nextAtMost (run endingStep (close s) fs).system ≤ nextAtMost s ∧
      (run endingStep (close s) fs).system.toAgent <:+ s.toAgent := by
    refine run_invariant_always
      (fun e : Ending => e.system.alive = false ∧ nextAtMost e.system ≤ nextAtMost s ∧
        e.system.toAgent <:+ s.toAgent) (fun e event h => ?_)
      ⟨rfl, le_refl _, List.suffix_refl _⟩ fs
    obtain ⟨hLess, hSuffix⟩ := endingStep_quiet h.1 event
    exact ⟨(endingStep_alone h.1 event).1, hLess.trans h.2.1, hSuffix.trans h.2.2⟩
  refine ⟨fun j hListed => ?_, fun j hUnlisted hBorn hEnded => ?_, hQuiet.2.2, ?_⟩
  · have hBorn := (hRostered.listed j hListed).born
    have hTold : Told (close s) j := ⟨rfl, hBorn, hRostered.lt_next hBorn, .inl hListed⟩
    have hCost := spent_add_le_potential (fun e => Told e j)
      (fun e event => if Advances e j event then 1 else 0)
      (fun e : Ending => stepsLeft (e.system.proc j)) (fun e event h => h.step event) hTold fs
    have hLast : Told (run endingStep (close s) fs) j :=
      run_invariant_always (fun e => Told e j) (fun _ event h => (h.step event).1) hTold fs
    refine ⟨Nat.le_trans (Nat.le_add_right _ _) hCost, ?_⟩
    by_cases hOver : ((run endingStep (close s) fs).system.proc j).state = .ended
    · exact .inl hOver
    · exact .inr (hLast.goes hOver)
  · have hStranded : Stranded (close s) j := by
      cases hRostered.unlisted j hUnlisted with
      | unborn hState _ _ => exact absurd hState hBorn
      | starting _ _ hLoop _ _ hMailbox =>
          exact ⟨rfl, hLoop, hMailbox, hUnlisted, hRostered.lt_next hBorn⟩
      | gone hState _ => exact absurd hState hEnded
    exact (run_invariant_always (fun e => Stranded e j) (fun _ event h => h.step event)
      hStranded fs).loop
  · have hAtMost := hQuiet.2.1
    have hBound : nextAtMost s ≤ s.nextJobId + 1 := by
      unfold nextAtMost
      split <;> omega
    have hBelow : (run endingStep (close s) fs).system.nextJobId ≤
        nextAtMost (run endingStep (close s) fs).system := by
      unfold nextAtMost
      split <;> omega
    omega

/-- Job 1001 waits for its resources, job 1002 was started and is not registered. -/
def twoStarted : List Event :=
  firstJob ++ [.ask, .fromGenerator, .agentReads 1 (tablahashCreate _) .noSocket, .fromAgent,
    .generate (some twoCpus)]

/-- What follows the end of the connection. -/
def afterwards : List Event := [.heartbeat 1001, .heartbeat 1002, .take 1002, .take 1001]

theorem shutdown_ends_the_registered_twoStarted :
    (run schedStep .init twoStarted).jobsMap 1001 = true ∧
      ((run endingStep (close (run schedStep .init twoStarted)) afterwards).system.proc
        1001).state = .ended ∧
      advances 1001 (close (run schedStep .init twoStarted)) afterwards ≤
        stepsLeft ((run schedStep .init twoStarted).proc 1001) ∧
      ((run endingStep (close (run schedStep .init twoStarted)) afterwards).system.proc
        1002).state = .loop := by
  have hListed : (run schedStep .init twoStarted).jobsMap 1001 = true := by decide +kernel
  have hEnds := shutdown_ends_the_registered twoStarted afterwards
  exact ⟨hListed, by decide +kernel, (hEnds.1 1001 hListed).1,
    hEnds.2.1 1002 (by decide +kernel) (by decide +kernel) (by decide +kernel)⟩

end ResourceAgent.Ports.Shutdown
