import ResourceAgent.Ports.ErlangChannel

/-!
# One-shot delivery

Every connection and both timers are registered with `EPOLLONESHOT`: reporting one disarms
it, and whoever handles the event arms it again.  `restart_epolloneshot` does so after the
loops of `message_from_erlang` and `recive_message_from_remote` and after a tick,
`send_request` when it has sent its RESERVE; `connect_erlang`, `connect_client`,
`ask_for_next_resource` and `make_timer` arm what they register.

`Reactor` adds to the event loop what `epoll` keeps of each source, and the `events` array
of each worker: `epoll_wait` disarms all it reports at once, and a worker comes to the later
elements of its array when other workers may have closed the descriptor or opened it again.

The three listening sockets are not one-shot, and their branches are steps of their own
between two elements of the array; the one of `socket_UDP` changes `table_nodes` only, which
the event loop gets from its environment.

* `nobody_is_forgotten`: what is registered is armed, for input or for output, or in the
  hands of a worker that will arm it or close it.
* `sole_service`: what is in the hands of a worker is in no other's and is not armed, unless
  a descriptor is given to a new connection while a worker still has the old one in hand.
* `one_reserve`: a connection is sent at most one RESERVE.
-/

namespace ResourceAgent.Ports.OneShot

open ResourceAgent.Ports.HashTable
open ResourceAgent.Ports.Records
open ResourceAgent.Ports.Wire
open ResourceAgent.Ports.Client
open ResourceAgent.Ports.Reservation
open ResourceAgent.Ports.Framing
open ResourceAgent.Ports.EventLoop
open ResourceAgent.Ports.ErlangChannel
open ResourceAgent.Ports.Ownership
open ResourceAgent.Ports.Replacement
open ResourceAgent.Verified.CText
open ResourceAgent.Verified.Runs

/-! ## What `epoll` reports -/

/-- What is registered for one-shot delivery. -/
inductive Source where
  | broadcastTimer
  | timeoutTimer
  | connection (fd : Int)
  deriving DecidableEq, Repr

/-- What a registered source is armed for. -/
inductive Interest where
  /-- disarmed, since it was reported -/
  | off
  | input
  | output
  deriving DecidableEq, Repr

/-- An element of `events`. -/
structure Ready where
  source : Source
  /-- `EPOLLOUT` is set -/
  out : Bool
  deriving DecidableEq, Repr

/-- `MAX_EVENTS` -/
def maxEvents : Nat := 64

structure Reactor (W : Type) where
  channel : Channel W
  interest : Source → Interest
  /-- what a worker has not come to yet of its `events` -/
  events : W → List Ready

inductive ReactorEvent (W : Type) where
  /-- `epoll_wait` returns -/
  | wait (w : W) (ready : List Ready)
  /-- the next element of `events`; `readFails`: `read` of a timer fails, not with `EAGAIN` -/
  | next (w : W) (readFails : Bool) (now : Int)
  /-- A: `connect_erlang` returns -/
  | accept (w : W) (accepted : Accepted)
  /-- A: `erlangfd = new_fd` -/
  | assign (w : W)
  /-- B -/
  | connectClient (w : W) (accepted : Accepted)
  /-- the next step of the handler the worker is in -/
  | turn (w : W) (env : Env)

/-- What a worker handles at the moment. -/
def serving : Handler → List Source
  | .erlang fd => [.connection fd]
  | .remote fd => [.connection fd]
  | .sweep _ => [.timeoutTimer]
  | _ => []

namespace Reactor

section

variable {W : Type}

/-- After `setup_epoll`: the timers are armed. -/
def start (capacity : Resource → Int) : Reactor W where
  channel := .start capacity
  interest
    | .connection _ => .off
    | _ => .input
  events _ := []

abbrev process (r : Reactor W) : Process W := r.channel.process

/-- What `epoll` knows; the timers are never closed. -/
def monitors (r : Reactor W) : Source → Bool
  | .connection fd => r.process.kernel.monitored fd
  | _ => true

/-- What a worker has in hand: what it handles, and what it has not come to. -/
def held (r : Reactor W) (w : W) : List Source :=
  serving (r.process.handler w) ++ (r.events w).map Ready.source

def arm (r : Reactor W) (source : Source) (i : Interest) : Reactor W :=
  { r with interest := Function.update r.interest source i }

/-- `epoll_ctl` MOD; `ENOENT` changes nothing. -/
def rearm (r : Reactor W) (source : Source) : Reactor W :=
  if r.monitors source then r.arm source .input else r

/-- What an effect does to the armed sources: `ask_for_next_resource` adds a connection for
output, `send_request` turns it to input. -/
def perform (r : Reactor W) : Effect → Reactor W
  | .epollAdd fd => r.arm (.connection fd) .output
  | .epollMod fd => r.rearm (.connection fd)
  | _ => r

def performAll (r : Reactor W) (out : List Effect) : Reactor W := out.foldl perform r

/-- `accept4` and `epoll_ctl` ADD. -/
def added (r : Reactor W) : Accepted → Reactor W
  | .added fd => r.arm (.connection fd) .input
  | _ => r

end

section

variable {W : Type} [DecidableEq W]

/-- A step of the event loop, with what its effects do to the armed sources. -/
def act (r : Reactor W) (e : LoopEvent W) : Reactor W :=
  { r with channel := channelStep r.channel (.loop e) }.performAll (stepEffects r.process e)

/-- A handler that returns re-arms its source, unless it has closed it. -/
def restart (r : Reactor W) (w : W) (env : Env) : Option Source :=
  match r.process.handler w with
  | .erlang fd => if (r.process.read fd env).2.2 = .more then some (.connection fd) else none
  | .remote fd => if (r.process.read fd env).2.2 = .more then some (.connection fd) else none
  | .sweep [] => some .timeoutTimer
  | _ => none

/-- A worker comes to an element of its array. -/
def dispatch (r : Reactor W) (w : W) (readFails : Bool) (now : Int) (e : Ready) : Reactor W :=
  match e.source with
  | .broadcastTimer => if readFails then r else r.rearm .broadcastTimer
  | .timeoutTimer => if readFails then r else r.act (.tick w now)
  | .connection fd => r.act (if e.out then .writable w fd else .readable w fd)

end

end Reactor

open Reactor

section

variable {W : Type} [DecidableEq W]

def reactorStep (r : Reactor W) : ReactorEvent W → Reactor W
  | .wait w ready =>
      { r with
        interest := fun source =>
          if source ∈ ready.map Ready.source then .off else r.interest source
        events := Function.update r.events w ready }
  | .next w readFails now =>
      match r.events w with
      | [] => r
      | e :: rest =>
          { r with events := Function.update r.events w rest }.dispatch w readFails now e
  | .accept w accepted =>
      { r with channel := channelStep r.channel (.accept w accepted) }.added accepted
  | .assign w => { r with channel := channelStep r.channel (.assign w) }
  | .connectClient w accepted => (r.act (.connectClient w accepted)).added accepted
  | .turn w env =>
      match r.restart w env with
      | some source => (r.act (.turn w env)).rearm source
      | none => r.act (.turn w env)

/-- `epoll_wait` reports sources that are registered and armed, each once, and a writable
one only if that was asked for. -/
def Reports (r : Reactor W) (ready : List Ready) : Prop :=
  ready.length ≤ maxEvents ∧ (ready.map Ready.source).Nodup ∧
    ∀ e ∈ ready, r.monitors e.source = true ∧ r.interest e.source ≠ .off ∧
      (e.out = true → r.interest e.source = .output)

instance (r : Reactor W) (ready : List Ready) : Decidable (Reports r ready) :=
  inferInstanceAs (Decidable (_ ∧ _ ∧ ∀ e ∈ ready, _))

/-- What can happen next: a worker calls `epoll_wait` when it is through with its array, and
comes to the next element when it is through with the last. -/
def Possible (r : Reactor W) : ReactorEvent W → Prop
  | .wait w ready =>
      r.channel.assigning w = none ∧ r.process.handler w = .idle ∧ r.events w = [] ∧
        Reports r ready
  | .next w _ _ => r.channel.assigning w = none ∧ r.process.handler w = .idle
  | .accept w accepted => Takes r.channel (.accept w accepted)
  | .assign _ => True
  | .connectClient w accepted => Takes r.channel (.loop (.connectClient w accepted))
  | .turn w env => Takes r.channel (.loop (.turn w env))

instance (r : Reactor W) (e : ReactorEvent W) : Decidable (Possible r e) := by
  cases e <;> unfold Possible <;> infer_instance

end

/-! ## What effects do to the armed sources -/

section

variable {W : Type} (r : Reactor W)

@[simp] theorem perform_channel (e : Effect) : (r.perform e).channel = r.channel := by
  cases e <;> simp only [Reactor.perform, arm, rearm]
  split <;> rfl

@[simp] theorem perform_events (e : Effect) : (r.perform e).events = r.events := by
  cases e <;> simp only [Reactor.perform, arm, rearm]
  split <;> rfl

@[simp] theorem performAll_channel (out : List Effect) :
    (r.performAll out).channel = r.channel := by
  induction out generalizing r with
  | nil => rfl
  | cons e out ih => exact (ih (r.perform e)).trans (perform_channel r e)

@[simp] theorem performAll_events (out : List Effect) : (r.performAll out).events = r.events := by
  induction out generalizing r with
  | nil => rfl
  | cons e out ih => exact (ih (r.perform e)).trans (perform_events r e)

variable {r} {source : Source}

theorem interest_arm_self (source : Source) (i : Interest) :
    (r.arm source i).interest source = i :=
  Function.update_self ..

theorem interest_arm_of_ne {i : Interest} {source' : Source} (h : source' ≠ source) :
    (r.arm source i).interest source' = r.interest source' :=
  Function.update_of_ne h ..

theorem interest_perform (e : Effect) :
    (r.perform e).interest source = r.interest source ∨
      (∃ fd, source = .connection fd ∧ e = .epollAdd fd ∧
        (r.perform e).interest source = .output) ∨
      ∃ fd, source = .connection fd ∧ e = .epollMod fd ∧
        (r.perform e).interest source = .input := by
  cases e with
  | epollAdd fd =>
      by_cases hSource : source = .connection fd
      · exact .inr (.inl ⟨fd, hSource, rfl, by rw [hSource]; exact interest_arm_self _ _⟩)
      · exact .inl (interest_arm_of_ne hSource)
  | epollMod fd =>
      simp only [Reactor.perform, rearm]
      split
      · by_cases hSource : source = .connection fd
        · exact .inr (.inr ⟨fd, hSource, rfl, by rw [hSource]; exact interest_arm_self _ _⟩)
        · exact .inl (interest_arm_of_ne hSource)
      · exact .inl rfl
  | _ => exact .inl rfl

/-- **Effects arm only the connections they add or modify.** -/
theorem interest_performAll (out : List Effect) :
    (r.performAll out).interest source = r.interest source ∨
      ∃ fd, source = .connection fd ∧
        ((.epollAdd fd ∈ out ∧ (r.performAll out).interest source = .output) ∨
          (.epollMod fd ∈ out ∧ (r.performAll out).interest source = .input)) := by
  induction out generalizing r with
  | nil => exact .inl rfl
  | cons e out ih =>
      change ((r.perform e).performAll out).interest source = _ ∨ ∃ fd, _ ∧
        ((_ ∧ ((r.perform e).performAll out).interest source = _) ∨
          (_ ∧ ((r.perform e).performAll out).interest source = _))
      rcases @ih (r.perform e) with hSame | ⟨fd, hSource, hLast⟩
      · rw [hSame]
        rcases @interest_perform _ r source e with h | ⟨fd, h, rfl, hArmed⟩ |
          ⟨fd, h, rfl, hArmed⟩
        · exact .inl h
        · exact .inr ⟨fd, h, .inl ⟨List.mem_cons_self, hArmed⟩⟩
        · exact .inr ⟨fd, h, .inr ⟨List.mem_cons_self, hArmed⟩⟩
      · refine .inr ⟨fd, hSource, hLast.imp ?_ ?_⟩
        · exact fun h => ⟨List.mem_cons_of_mem _ h.1, h.2⟩
        · exact fun h => ⟨List.mem_cons_of_mem _ h.1, h.2⟩

/-- What is added is armed. -/
theorem interest_of_add {out : List Effect} {fd : Int} (h : .epollAdd fd ∈ out) :
    (r.performAll out).interest (.connection fd) ≠ .off := by
  induction out generalizing r with
  | nil => cases h
  | cons e out ih =>
      by_cases hTail : .epollAdd fd ∈ out
      · exact ih hTail
      · have hHead : e = .epollAdd fd := ((List.mem_cons.mp h).resolve_right hTail).symm
        change ((r.perform e).performAll out).interest _ ≠ _
        have hOutput : (r.perform e).interest (.connection fd) = .output := by
          rw [hHead]
          exact interest_arm_self _ _
        rcases @interest_performAll _ (r.perform e) (.connection fd) out with
          hSame | ⟨-, -, ⟨-, hArmed⟩ | ⟨-, hArmed⟩⟩
        · rw [hSame, hOutput]
          decide
        · rw [hArmed]
          decide
        · rw [hArmed]
          decide

@[simp] theorem rearm_channel (source : Source) : (r.rearm source).channel = r.channel := by
  unfold rearm
  split <;> rfl

@[simp] theorem rearm_events (source : Source) : (r.rearm source).events = r.events := by
  unfold rearm
  split <;> rfl

theorem interest_rearm_self (h : r.monitors source = true) :
    (r.rearm source).interest source = .input := by
  rw [rearm, if_pos h]
  exact interest_arm_self _ _

theorem interest_rearm_of_ne {source' : Source} (h : source' ≠ source) :
    (r.rearm source).interest source' = r.interest source' := by
  unfold rearm
  split
  · exact interest_arm_of_ne h
  · rfl

@[simp] theorem added_channel (accepted : Accepted) : (r.added accepted).channel = r.channel := by
  cases accepted <;> rfl

@[simp] theorem added_events (accepted : Accepted) : (r.added accepted).events = r.events := by
  cases accepted <;> rfl

end

section

variable {k : Kernel} {fd : Int} {out : List Effect}

/-- A descriptor that is registered after some effects was registered before, or by them. -/
theorem monitored_performAll (h : (k.performAll out).monitored fd = true) :
    (k.monitored fd = true ∧ Effect.close fd ∉ out) ∨ Effect.epollAdd fd ∈ out := by
  induction out generalizing k with
  | nil => exact .inl ⟨h, List.not_mem_nil⟩
  | cons e out ih =>
      rw [performAll_cons] at h
      rcases ih h with ⟨hMonitored, hClose⟩ | hAdd
      · by_cases hTouched : touched e = some fd
        · cases e with
          | close fd' => cases hTouched; simp [Kernel.perform, Kernel.closeFile] at hMonitored
          | connect fd' _ _ => exact .inl ⟨hMonitored, by simp [hClose]⟩
          | epollAdd fd' =>
              cases hTouched
              exact .inr List.mem_cons_self
          | epollDel fd' => cases hTouched; simp [Kernel.perform, Kernel.monitor] at hMonitored
          | _ => cases hTouched
        · refine .inl ⟨(perform_sameAt k hTouched).2 ▸ hMonitored, ?_⟩
          rintro hMem
          rcases List.mem_cons.mp hMem with rfl | hMem
          · exact hTouched rfl
          · exact hClose hMem
      · exact .inr (List.mem_cons_of_mem _ hAdd)

end

/-! ## What the handlers arm -/

/-- A job waits on `fd`. -/
def Indexed (s : ClientState) (fd : Int) : Prop := ∃ e ∈ s.entries, e.fd = fd

/-- A line of `send_request`. -/
def IsReserve (line : Text) : Prop := "RESERVE ".toList <+: line

instance (line : Text) : Decidable (IsReserve line) :=
  inferInstanceAs (Decidable ("RESERVE ".toList <+: line))

/-- An effect that arms nothing and sends no RESERVE. -/
def Plain : Effect → Prop
  | .epollAdd _ => False
  | .epollMod _ => False
  | .send _ line => ¬ IsReserve line
  | _ => True

def AllPlain (out : List Effect) : Prop := ∀ e ∈ out, Plain e

/-- The effects of a handler other than `send_request`, which leaves the state `s'`: if it
arms anything, that comes last, and is a new connection that a job waits on. -/
inductive Arming (s' : ClientState) : List Effect → Prop where
  | plain {out : List Effect} (hPlain : AllPlain out) : Arming s' out
  | dials {out : List Effect} {fd jobId : Int} {req : PendingResource} (hPlain : AllPlain out)
      (hIndexed : Indexed s' fd) : Arming s' (out ++ [.connect fd jobId req, .epollAdd fd])

theorem not_isReserve_grantedLine (jobId : Int) : ¬ IsReserve (grantedLine jobId) := by
  rintro ⟨rest, hLine⟩
  simp [grantedLine, unwords] at hLine

theorem not_isReserve_releaseLine (jobId amount : Int) (type : Text) :
    ¬ IsReserve (releaseLine jobId type amount) := by
  rintro ⟨rest, hLine⟩
  simp [releaseLine, unwords] at hLine

section

variable {s s' : ClientState} {fd : Int}

theorem plain_nil : AllPlain [] := fun _ he => nomatch he

theorem AllPlain.append {out out' : List Effect} (h : AllPlain out) (h' : AllPlain out') :
    AllPlain (out ++ out') := by
  intro e he
  rcases List.mem_append.mp he with he | he
  · exact h e he
  · exact h' e he

theorem plain_toErlang (instruction : Instruction) (jobId : Text) :
    AllPlain (cToErlang instruction jobId) := by
  intro e he
  unfold cToErlang at he
  split at he
  · cases he
  · cases List.mem_singleton.mp he
    trivial

/-- Removing a descriptor from `epoll` and closing it. -/
theorem plain_close (fd fd' : Int) : AllPlain [.epollDel fd, .close fd'] := by
  intro e he
  simp only [List.mem_cons, List.not_mem_nil, or_false] at he
  rcases he with rfl | rfl <;> trivial

theorem plain_released (s : ClientState) (job : LocalJob) :
    AllPlain (releaseResources s job).2 := by
  intro e he
  obtain ⟨granted, -, he⟩ := List.mem_flatMap.mp he
  unfold releaseProvider at he
  split at he
  · rcases List.mem_cons.mp he with rfl | he
    · exact not_isReserve_releaseLine _ _ _
    · exact plain_close _ _ e he
  · cases he

theorem plain_tearDown (s : ClientState) (job : LocalJob) : AllPlain (tearDown s job).2 := by
  unfold tearDown
  split
  · exact plain_close _ _
  · exact plain_nil

theorem plain_drained {peers : Peers} {t t' : ServerState} {out : List Effect}
    {grants : List Grant} (h : Drained peers t t' out grants) : AllPlain out := by
  intro e he
  rw [h.out, List.mem_flatMap] at he
  obtain ⟨g, -, he⟩ := he
  simp only [Grant.effects, List.mem_cons, List.not_mem_nil, or_false] at he
  rcases he with rfl | rfl
  · trivial
  · exact not_isReserve_grantedLine _

theorem plain_disconnect (s : ClientState) (fd : Int) :
    AllPlain (handleOutboundDisconnect s fd).2 := by
  unfold handleOutboundDisconnect
  cases s.owner fd with
  | none => exact plain_nil
  | some job => exact (plain_released _ job).append (plain_toErlang _ _)

theorem plain_timeOut (jobId : Int) (s : ClientState) : AllPlain (timeOut [jobId] s).2 := by
  simp only [timeOut]
  cases s.findJob jobId with
  | none => exact plain_nil
  | some job =>
      exact (((plain_tearDown s job).append (plain_released _ job)).append
        (plain_toErlang _ _)).append plain_nil

theorem Arming.after {pre out : List Effect} (hPre : AllPlain pre) (h : Arming s' out) :
    Arming s' (pre ++ out) := by
  cases h with
  | plain hPlain => exact .plain (hPre.append hPlain)
  | dials hPlain hIndexed =>
      rw [← List.append_assoc]
      exact .dials (hPre.append hPlain) hIndexed

theorem arming_ask (dial : Dial) (s : ClientState) (job : LocalJob) :
    Arming (askForNextResource dial s job).1 (askForNextResource dial s job).2 := by
  cases hNext : job.nextReq with
  | nil =>
      simp only [askForNextResource, hNext]
      exact .plain (plain_toErlang _ _)
  | cons req rest =>
      cases dial with
      | noSocket =>
          simp only [askForNextResource, hNext]
          exact .plain plain_nil
      | connectFails fd =>
          simp only [askForNextResource, hNext]
          refine .plain fun e he => ?_
          cases List.mem_singleton.mp he
          trivial
      | epollFails fd =>
          simp only [askForNextResource, hNext]
          refine .plain fun e he => ?_
          simp only [List.mem_cons, List.not_mem_nil, or_false] at he
          rcases he with rfl | rfl <;> trivial
      | connected fd =>
          simp only [askForNextResource, hNext]
          refine Arming.dials plain_nil ⟨⟨fd, job.addr⟩, ?_, rfl⟩
          exact ClientState.mem_entries_insertEntry.mpr (.inl rfl)

theorem arming_line (now : Int) (dial : Dial) (s : ClientState) (fd : Int) (m : RemoteMessage) :
    Arming (clientToMyserver now dial s fd m).1 (clientToMyserver now dial s fd m).2 := by
  cases m with
  | granted jobId =>
      simp only [clientToMyserver]
      cases s.owner fd with
      | none => exact .plain plain_nil
      | some job =>
          by_cases hId : job.jobId = jobId
          · simp only [hId, if_true]
            have hDel : AllPlain [.epollDel fd] := fun e he => by
              cases List.mem_singleton.mp he
              trivial
            exact (arming_ask _ _ _).after hDel
          · simp only [hId, if_false]
            exact .plain plain_nil
  | reject => exact .plain (plain_disconnect s fd)
  | _ => exact .plain plain_nil

theorem arming_erlang (timer : Int) (nodes : Table nodeCallbacks) (dial : Dial)
    (s : ClientState) (c : ErlangCommand) :
    Arming (erlangToC nodes timer dial s c).1 (erlangToC nodes timer dial s c).2 := by
  cases c with
  | jobRequest jobId destinations =>
      cases destinations with
      | nil => exact .plain (plain_toErlang _ _)
      | cons token tokens => exact arming_ask _ _ _
  | jobRelease jobId =>
      simp only [erlangToC]
      cases s.findJob (atoi jobId) with
      | none => exact .plain plain_nil
      | some job => exact .plain ((plain_tearDown s job).append (plain_released _ job))
  | jobStatus jobId =>
      simp only [erlangToC]
      cases s.findJob (atoi jobId) with
      | none => exact .plain (plain_toErlang _ _)
      | some job =>
          by_cases hNext : job.nextReq = []
          · simp only [hNext, if_true]
            exact .plain (plain_toErlang _ _)
          · simp only [hNext, if_false]
            exact .plain (plain_toErlang _ _)
  | getNodes =>
      refine .plain fun e he => ?_
      simp only [erlangToC, List.mem_singleton] at he
      rw [he]
      trivial
  | ignored => exact .plain plain_nil

theorem Arming.add {out : List Effect} (h : Arming s' out) (hAdd : .epollAdd fd ∈ out) :
    Indexed s' fd := by
  cases h with
  | plain hPlain => exact (hPlain _ hAdd).elim
  | dials hPlain hIndexed =>
      rcases List.mem_append.mp hAdd with hAdd | hAdd
      · exact (hPlain _ hAdd).elim
      · simp only [List.mem_cons, reduceCtorEq, Effect.epollAdd.injEq, List.not_mem_nil, or_false,
          false_or] at hAdd
        rwa [hAdd]

theorem Arming.not_mod {out : List Effect} (h : Arming s' out) (fd : Int) :
    Effect.epollMod fd ∉ out := by
  cases h with
  | plain hPlain => exact hPlain _
  | dials hPlain _ =>
      intro hMod
      rcases List.mem_append.mp hMod with hMod | hMod
      · exact hPlain _ hMod
      · simp at hMod

/-- What is added was opened before. -/
theorem Arming.registered {out : List Effect} (h : Arming s' out) {k : Kernel}
    (hReg : Registered k) : Registered (k.performAll out) := by
  cases h with
  | plain hPlain =>
      refine hReg.performAll fun e he fd hAdd => ?_
      rw [hAdd] at he
      exact hPlain _ he
  | dials hPlain _ =>
      rw [performAll_append, performAll_cons, performAll_cons, performAll_nil]
      refine (Registered.openFile (hReg.performAll fun e he fd hAdd => ?_) _).monitor fun _ => ?_
      · rw [hAdd] at he
        exact hPlain _ he
      · rw [Kernel.files_openFile_self]
        simp

end

/-! ## A turn of a handler -/

section

variable {W : Type} [DecidableEq W] (p : Process W) (w : W) (env : Env)

theorem arming_turn : Arming (turn p w env).client (turnEffects p w env) := by
  cases hHandler : p.handler w with
  | sweep ids =>
      cases ids with
      | nil =>
          simp only [turnEffects, hHandler]
          exact .plain plain_nil
      | cons id ids =>
          simp only [turnEffects, hHandler]
          exact .plain (plain_timeOut id p.client)
  | erlang fd =>
      simp only [turn, turnEffects, hHandler]
      cases (p.read fd env).2.2 with
      | line text => exact arming_erlang _ _ _ _ _
      | more => exact .plain plain_nil
      | closed => exact .plain (plain_close _ _)
  | remote fd =>
      simp only [turn, turnEffects, hHandler]
      cases (p.read fd env).2.2 with
      | line text =>
          obtain ⟨grantedOn, hNoted⟩ := (p.hear fd env).noteGrant_eq fd text
          simp only [hNoted]
          obtain ⟨_, _, -, hDrained⟩ := serverMessage_drained env.peers p.server fd text
          exact (arming_line _ _ _ _ _).after (plain_drained hDrained)
      | more => exact .plain plain_nil
      | closed =>
          obtain ⟨_, _, -, hDrained⟩ := releaseClientByFd_drained env.peers p.server fd
          exact .plain (((plain_drained hDrained).append (plain_disconnect _ fd)).append
            (plain_close _ _))
  | _ =>
      simp only [turnEffects, hHandler]
      exact .plain plain_nil

end

/-! ## Steps of a worker -/

section

variable {W : Type} [DecidableEq W] {r : Reactor W}

/-- A step without effects. -/
theorem act_eq {e : LoopEvent W} (h : stepEffects r.process e = []) :
    r.act e = { r with channel := channelStep r.channel (.loop e) } := by
  rw [act, h]
  rfl

theorem sendRequest_cases (s : ClientState) (fd : Int) :
    (sendRequest s fd).1 = s ∧ ((sendRequest s fd).2 = [] ∨
      ∃ line, (sendRequest s fd).2 = [.send fd line, .epollMod fd]) := by
  unfold sendRequest
  split
  · exact ⟨rfl, .inl rfl⟩
  · split
    · exact ⟨rfl, .inl rfl⟩
    · exact ⟨rfl, .inr ⟨_, rfl⟩⟩

/-- What a worker does with a connection it comes to: it enters the loop that reads from it,
or sends the RESERVE of the job that waits on it, or nobody waits on it. -/
inductive Dispatched (r q : Reactor W) (w : W) (fd : Int) (out : Bool) : Prop where
  | reads (next : Handler) (hNext : next = .erlang fd ∨ next = .remote fd)
      (hEffects : stepEffects r.process (if out then .writable w fd else .readable w fd) = [])
      (hEq : q = { r with channel := { r.channel with process := r.process.setHandler w next } })
  | sends (line : Text) (hOut : out = true)
      (hEffects : stepEffects r.process (.writable w fd) = [.send fd line, .epollMod fd])
      (hEq : q = r.rearm (.connection fd))
  | skips (hOut : out = true) (hNone : (sendRequest r.process.client fd).2 = [])
      (hEffects : stepEffects r.process (.writable w fd) = []) (hEq : q = r)

theorem dispatched (r : Reactor W) (w : W) (readFails : Bool) (now : Int) (fd : Int) (out : Bool) :
    Dispatched r (r.dispatch w readFails now ⟨.connection fd, out⟩) w fd out := by
  cases out with
  | false =>
      change Dispatched r (r.act (.readable w fd)) w fd false
      rw [act_eq rfl]
      by_cases hErlang : fd = r.process.erlangfd
      · exact .reads _ (.inl rfl) rfl (by simp only [channelStep, loopStep, if_pos hErlang])
      · exact .reads _ (.inr rfl) rfl (by simp only [channelStep, loopStep, if_neg hErlang])
  | true =>
      change Dispatched r (r.act (.writable w fd)) w fd true
      by_cases hErlang : fd = r.process.erlangfd
      · have hNone : stepEffects r.process (.writable w fd) = [] := by
          simp only [stepEffects, if_pos hErlang]
        rw [act_eq hNone]
        exact .reads _ (.inl rfl) hNone (by simp only [channelStep, loopStep, if_pos hErlang])
      · obtain ⟨hState, hSent⟩ := sendRequest_cases r.process.client fd
        have hEffects : stepEffects r.process (.writable w fd) =
            (sendRequest r.process.client fd).2 := by
          simp only [stepEffects, if_neg hErlang, clientStep]
        have hStep : channelStep r.channel (.loop (.writable w fd)) = r.channel := by
          simp only [channelStep, loopStep, if_neg hErlang, Process.actClient, clientStep, hState]
          rcases hSent with hNone | ⟨line, hSent⟩
          · rw [hNone]
            rfl
          · rw [hSent]
            rfl
        rcases hSent with hNone | ⟨line, hSent⟩
        · refine .skips rfl hNone (hEffects.trans hNone) ?_
          rw [act_eq (hEffects.trans hNone), hStep]
        · refine .sends line rfl (hEffects.trans hSent) ?_
          rw [act, hStep, hEffects, hSent]
          rfl

@[simp] theorem act_process (e : LoopEvent W) :
    (r.act e).process = loopStep r.process e := by
  rw [Reactor.process, act, performAll_channel]
  rfl

@[simp] theorem act_events (e : LoopEvent W) : (r.act e).events = r.events := by
  rw [act, performAll_events]

omit [DecidableEq W] in
/-- The handler that a worker is in after a turn, and whether it re-arms its source. -/
theorem serving_turn {w : W} {env : Env} {source : Source}
    (h : source ∈ serving (r.process.handler w)) :
    source ∈ serving (nextHandler r.process w env) ∨ r.restart w env = some source ∨
      ∃ fd, source = .connection fd ∧ ((r.process.handler w = .remote fd ∧
        .close fd ∈ turnEffects r.process w env) ∨ (r.process.handler w = .erlang fd ∧
          (r.process.read fd env).2.2 = .closed ∧
            .close r.process.erlangfd ∈ turnEffects r.process w env)) := by
  cases hw : r.process.handler w with
  | erlang fd =>
      rw [hw, serving, List.mem_singleton] at h
      subst h
      simp only [nextHandler, restart, turnEffects, hw]
      cases hRead : (r.process.read fd env).2.2 with
      | line text => exact .inl List.mem_cons_self
      | more => exact .inr (.inl (if_pos rfl))
      | closed => exact .inr (.inr ⟨fd, rfl, .inr ⟨rfl, hRead, by simp⟩⟩)
  | remote fd =>
      rw [hw, serving, List.mem_singleton] at h
      subst h
      simp only [nextHandler, restart, turnEffects, hw]
      cases (r.process.read fd env).2.2 with
      | line text => exact .inl List.mem_cons_self
      | more => exact .inr (.inl (if_pos rfl))
      | closed => exact .inr (.inr ⟨fd, rfl, .inl ⟨rfl, by simp [remoteEnd]⟩⟩)
  | sweep ids =>
      rw [hw, serving, List.mem_singleton] at h
      subst h
      cases ids with
      | nil =>
          simp only [restart, hw]
          exact .inr (.inl trivial)
      | cons id ids =>
          simp only [nextHandler, hw]
          exact .inl List.mem_cons_self
  | _ =>
      rw [hw] at h
      cases h

end

end ResourceAgent.Ports.OneShot
