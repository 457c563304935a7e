import Mathlib.Data.Fintype.Basic
import ResourceAgent.Ports.EventLoop
import ResourceAgent.Ports.Ownership

/-!
# The connection to the scheduler

`erlangfd` is one global.  The accept branch of `event_loop` overwrites it with whatever
`connect_erlang` returns, a failed `accept4` included; the dispatch compares descriptors
with it; the disconnect branch of `message_from_erlang` closes it, whichever connection
has ended, and then sets it to -1.

Here the accept branch is two sections, `connect_erlang` and the assignment, and any
number of workers interleave them with the steps of the event loop.  `Exclusive` says when
`socket_erlang` can be served: then `erlangfd` is the descriptor of the connection to the
scheduler as long as that is open, its lines go to `erlang_to_C`, and its end closes it and
nothing else (`channel_is_kept`).
-/

namespace ResourceAgent.Ports.ErlangChannel

open ResourceAgent.Ports.HashTable
open ResourceAgent.Ports.Records
open ResourceAgent.Ports.Wire
open ResourceAgent.Ports.Client
open ResourceAgent.Ports.Reservation
open ResourceAgent.Ports.Framing
open ResourceAgent.Ports.EventLoop
open ResourceAgent.Ports.Ownership
open ResourceAgent.Verified.CText
open ResourceAgent.Verified.Runs

/-! ## The accept branch in two sections -/

structure Channel (W : Type) where
  process : Process W
  /-- the value a worker is about to assign to `erlangfd` -/
  assigning : W → Option Int
  /-- the connections accepted on `socket_erlang` -/
  accepted : List Nat

def Channel.start {W : Type} (capacity : Resource → Int) : Channel W :=
  ⟨.init capacity, fun _ => none, []⟩

inductive ChannelEvent (W : Type) where
  /-- `connect_erlang` returns -/
  | accept (w : W) (accepted : Accepted)
  /-- `erlangfd = new_fd` -/
  | assign (w : W)
  | loop (e : LoopEvent W)

/-- The worker that takes an event. -/
def worker {W : Type} : LoopEvent W → W
  | .connectErlang w _ => w
  | .connectClient w _ => w
  | .tick w _ => w
  | .readable w _ => w
  | .writable w _ => w
  | .turn w _ => w

/-- The accept branch as one step. -/
def isConnectErlang {W : Type} : LoopEvent W → Bool
  | .connectErlang _ _ => true
  | _ => false

/-- A worker that can go on while a connection is accepted on `fd`: it is not in
`message_from_erlang`, and it does not read from `fd`. -/
def Apart (fd : Int) : Handler → Prop
  | .erlang _ => False
  | .leavingErlang => False
  | .remote fd' => fd' ≠ fd
  | _ => True

instance (fd : Int) : ∀ h, Decidable (Apart fd h)
  | .idle => inferInstanceAs (Decidable True)
  | .erlang _ => inferInstanceAs (Decidable False)
  | .remote fd' => inferInstanceAs (Decidable (fd' ≠ fd))
  | .leavingErlang => inferInstanceAs (Decidable False)
  | .leaving _ => inferInstanceAs (Decidable True)
  | .sweep _ => inferInstanceAs (Decidable True)

section

variable {W : Type} [DecidableEq W]

def channelStep (c : Channel W) : ChannelEvent W → Channel W
  | .accept w accepted =>
      { process := c.process.accept accepted
        assigning := Function.update c.assigning w (some (Process.newErlangfd accepted))
        accepted :=
          match accepted with
          | .added _ => c.process.kernel.opened :: c.accepted
          | _ => c.accepted }
  | .assign w =>
      match c.assigning w with
      | none => c
      | some fd =>
          { c with
            process := { c.process with erlangfd := fd }
            assigning := Function.update c.assigning w none }
  | .loop e => { c with process := loopStep c.process e }

/-- The two sections, one after the other, are the accept branch of the event loop. -/
theorem accept_assign (c : Channel W) (w : W) (accepted : Accepted) :
    (channelStep (channelStep c (.accept w accepted)) (.assign w)).process =
      loopStep c.process (.connectErlang w accepted) := by
  simp only [channelStep, Function.update_self]
  rfl

/-- What can happen next. -/
def Takes (c : Channel W) : ChannelEvent W → Prop
  | .accept w accepted =>
      c.assigning w = none ∧ c.process.handler w = .idle ∧ accepted.Free c.process.kernel
  | .assign _ => True
  | .loop e =>
      c.assigning (worker e) = none ∧ isConnectErlang e = false ∧ Enabled c.process e

instance (c : Channel W) (e : ChannelEvent W) : Decidable (Takes c e) := by
  cases e with
  | accept w accepted =>
      exact inferInstanceAs (Decidable (c.assigning w = none ∧ c.process.handler w = .idle ∧
        accepted.Free c.process.kernel))
  | assign w => exact inferInstanceAs (Decidable True)
  | loop e =>
      exact inferInstanceAs (Decidable (c.assigning (worker e) = none ∧
        isConnectErlang e = false ∧ Enabled c.process e))

/-- `socket_erlang` is served only while `erlangfd` is -1 and nobody is about to assign a
descriptor to it.  When a connection is accepted there, nobody is about to assign anything,
no worker is in `message_from_erlang`, and none still reads from the descriptor; and the
new connection is not served before the assignment. -/
def Exclusive (c : Channel W) : ChannelEvent W → Prop
  | .accept _ accepted => c.process.erlangfd = -1 ∧
      (∀ w, c.assigning w = none ∨ c.assigning w = some (-1)) ∧
      match accepted with
      | .added fd => ∀ w, c.assigning w = none ∧ Apart fd (c.process.handler w)
      | _ => True
  | .loop (.readable _ fd) => ∀ w, c.assigning w ≠ some fd
  | _ => True

instance [Fintype W] (c : Channel W) (e : ChannelEvent W) : Decidable (Exclusive c e) := by
  cases e with
  | accept w accepted =>
      cases accepted <;> exact inferInstanceAs (Decidable (_ ∧ (∀ w, _ ∨ _) ∧ _))
  | assign w => exact inferInstanceAs (Decidable True)
  | loop e =>
      cases e with
      | readable w fd => exact inferInstanceAs (Decidable (∀ w, c.assigning w ≠ some fd))
      | _ => exact inferInstanceAs (Decidable True)

/-- `fd` leads to a connection that was accepted on `socket_erlang`. -/
def Channel.OpenAt (c : Channel W) (fd : Int) : Prop :=
  ∃ n ∈ c.accepted, c.process.kernel.files fd = some n

instance (c : Channel W) (fd : Int) : Decidable (c.OpenAt fd) :=
  inferInstanceAs (Decidable (∃ n ∈ c.accepted, c.process.kernel.files fd = some n))

/-- An open connection to the scheduler is the one `erlangfd` leads to, once the accept
branch is over, and no worker serves it as a remote node. -/
def Attended (c : Channel W) : Prop :=
  ∀ fd, c.OpenAt fd →
    ((∀ w, c.assigning w = none) → c.process.erlangfd = fd) ∧
      ∀ w, c.process.handler w ≠ .remote fd

/-- A connection to the scheduler is served by `message_from_erlang`, which closes it at
its end, and nothing else. -/
def RightlyServed (c : Channel W) : ChannelEvent W → Prop
  | .loop (.readable w fd) => c.OpenAt fd →
      (loopStep c.process (.readable w fd)).handler w = .erlang fd
  | .loop (.turn w env) => ∀ fd, c.OpenAt fd → c.process.handler w = .erlang fd →
      (c.process.read fd env).2.2 = .closed →
      turnEffects c.process w env = [.epollDel fd, .close fd]
  | _ => True

end

/-! ## Descriptors -/

/-- Connections are numbered below the next number, and `epoll` knows descriptors only. -/
structure Numbered (k : Kernel) : Prop where
  files : ∀ fd n, k.files fd = some n → n < k.opened
  monitored : ∀ fd, k.monitored fd = true → 0 ≤ fd

section

variable {k : Kernel}

theorem Numbered.openFile (h : Numbered k) (fd : Int) : Numbered (k.openFile fd) where
  files fd' n hn := by
    show n < k.opened + 1
    by_cases hFd : fd' = fd
    · rw [hFd, k.files_openFile_self, Option.some.injEq] at hn
      omega
    · rw [k.files_openFile_of_ne hFd] at hn
      have := h.files fd' n hn
      omega
  monitored := h.monitored

theorem Numbered.closeFile (h : Numbered k) (fd : Int) : Numbered (k.closeFile fd) where
  files fd' n hn := by
    by_cases hFd : fd' = fd
    · rw [hFd, k.files_closeFile_self] at hn
      cases hn
    · rw [k.files_closeFile_of_ne hFd] at hn
      exact h.files fd' n hn
  monitored fd' hMonitored := by
    by_cases hFd : fd' = fd
    · rw [hFd] at hMonitored
      simp [Kernel.closeFile] at hMonitored
    · simp only [Kernel.closeFile, Function.update_of_ne hFd] at hMonitored
      exact h.monitored fd' hMonitored

theorem Numbered.monitor (h : Numbered k) {fd : Int} {registered : Bool}
    (hFd : registered = true → 0 ≤ fd) : Numbered (k.monitor fd registered) where
  files := h.files
  monitored fd' hMonitored := by
    by_cases hSame : fd' = fd
    · rw [hSame] at hMonitored ⊢
      exact hFd (by simpa [Kernel.monitor] using hMonitored)
    · simp only [Kernel.monitor, Function.update_of_ne hSame] at hMonitored
      exact h.monitored fd' hMonitored

/-- Effects that register descriptors only. -/
def Registers (out : List Effect) : Prop := ∀ fd, Effect.epollAdd fd ∈ out → 0 ≤ fd

theorem Numbered.performAll (h : Numbered k) {out : List Effect} (hOut : Registers out) :
    Numbered (k.performAll out) := by
  induction out generalizing k with
  | nil => exact h
  | cons e out ih =>
      rw [performAll_cons]
      refine ih ?_ fun fd hFd => hOut fd (List.mem_cons_of_mem _ hFd)
      cases e with
      | close fd => exact h.closeFile fd
      | connect fd jobId req => exact h.openFile fd
      | epollAdd fd => exact h.monitor fun _ => hOut fd List.mem_cons_self
      | epollDel fd => exact h.monitor (by simp)
      | _ => exact h

theorem opened_le_performAll (k : Kernel) (out : List Effect) :
    k.opened ≤ (k.performAll out).opened := by
  induction out generalizing k with
  | nil => exact le_refl _
  | cons e out ih =>
      rw [performAll_cons]
      refine le_trans ?_ (ih _)
      cases e <;> simp [Kernel.perform, Kernel.closeFile, Kernel.openFile, Kernel.monitor]

/-- A connection that was there before the effects is where it was. -/
theorem files_of_performAll {out : List Effect} {fd : Int} {n : Nat} (hOld : n < k.opened)
    (h : (k.performAll out).files fd = some n) : k.files fd = some n := by
  induction out generalizing k with
  | nil => exact h
  | cons e out ih =>
      rw [performAll_cons] at h
      have hPerformed := ih (Nat.lt_of_lt_of_le hOld (opened_le_performAll k [e])) h
      cases e with
      | close fd' =>
          have hClosed : (k.closeFile fd').files fd = some n := hPerformed
          by_cases hFd : fd = fd'
          · rw [hFd, k.files_closeFile_self] at hClosed
            cases hClosed
          · rwa [k.files_closeFile_of_ne hFd] at hClosed
      | connect fd' jobId req =>
          have hOpened : (k.openFile fd').files fd = some n := hPerformed
          by_cases hFd : fd = fd'
          · rw [hFd, k.files_openFile_self, Option.some.injEq] at hOpened
            omega
          · rwa [k.files_openFile_of_ne hFd] at hOpened
      | _ => exact hPerformed

end

/-! ## What the handlers register -/

theorem Registers.append {out out' : List Effect} (h : Registers out) (h' : Registers out') :
    Registers (out ++ out') := by
  intro fd hFd
  rcases List.mem_append.mp hFd with hFd | hFd
  · exact h fd hFd
  · exact h' fd hFd

theorem registers_harmless {out : List Effect} (h : Harmless out) : Registers out := by
  intro fd hFd
  exact absurd (h _ hFd).1 (by simp [touched])

theorem registers_nil : Registers [] := by
  intro fd hFd
  cases hFd

theorem registers_toErlang (instruction : Instruction) (jobId : Text) :
    Registers (cToErlang instruction jobId) :=
  registers_harmless (harmless_toErlang instruction jobId)

theorem registers_released (s : ClientState) (job : LocalJob) :
    Registers (releaseResources s job).2 := by
  intro fd hFd
  obtain ⟨granted, -, hFd⟩ := List.mem_flatMap.mp hFd
  unfold releaseProvider at hFd
  split at hFd <;> simp at hFd

theorem registers_tearDown (s : ClientState) (job : LocalJob) : Registers (tearDown s job).2 := by
  intro fd hFd
  unfold tearDown at hFd
  split at hFd <;> simp at hFd

theorem registers_ask (dial : Dial) (s : ClientState) (job : LocalJob) :
    Registers (askForNextResource dial s job).2 := by
  intro fd hFd
  cases hNext : job.nextReq with
  | nil =>
      simp only [askForNextResource, hNext] at hFd
      exact registers_toErlang _ _ fd hFd
  | cons req rest =>
      cases dial with
      | connected fd' =>
          simp only [askForNextResource, hNext, List.mem_cons, List.not_mem_nil, or_false,
            reduceCtorEq, false_or, Effect.epollAdd.injEq] at hFd
          rw [hFd]
          exact Int.natCast_nonneg fd'
      | _ => simp [askForNextResource, hNext] at hFd

theorem registers_disconnect (s : ClientState) (fd : Int) :
    Registers (handleOutboundDisconnect s fd).2 := by
  unfold handleOutboundDisconnect
  cases s.owner fd with
  | none => exact registers_nil
  | some job => exact (registers_released _ job).append (registers_toErlang _ _)

theorem registers_line (now : Int) (dial : Dial) (s : ClientState) (fd : Int) (m : RemoteMessage) :
    Registers (clientToMyserver now dial s fd m).2 := by
  cases m with
  | granted jobId =>
      simp only [clientToMyserver]
      cases s.owner fd with
      | none => exact registers_nil
      | some job =>
          by_cases hId : job.jobId = jobId
          · simp only [hId, if_true]
            intro fd' hFd'
            exact registers_ask _ _ _ fd' (by simpa using hFd')
          · simp only [hId, if_false]
            exact registers_nil
  | reject => exact registers_disconnect s fd
  | _ => exact registers_nil

theorem registers_erlang (nodes : Table nodeCallbacks) (timer : Int) (dial : Dial)
    (s : ClientState) (c : ErlangCommand) : Registers (erlangToC nodes timer dial s c).2 := by
  cases c with
  | jobRequest jobId destinations =>
      cases destinations with
      | nil => exact registers_toErlang _ _
      | cons token tokens => exact registers_ask _ _ _
  | jobRelease jobId =>
      simp only [erlangToC]
      cases s.findJob (atoi jobId) with
      | none => exact registers_nil
      | some job => exact (registers_tearDown s job).append (registers_released _ job)
  | jobStatus jobId =>
      simp only [erlangToC]
      cases s.findJob (atoi jobId) with
      | none => exact registers_toErlang _ _
      | some job => by_cases hNext : job.nextReq = [] <;> simp [hNext, registers_toErlang]
  | getNodes => exact fun _ hFd => by simp [erlangToC] at hFd
  | ignored => exact registers_nil

theorem registers_timeOut (ids : List Int) : ∀ s : ClientState, Registers (timeOut ids s).2 := by
  induction ids with
  | nil => exact fun _ => registers_nil
  | cons jobId ids ih =>
      intro s
      cases hFind : s.findJob jobId with
      | none =>
          simp only [timeOut, hFind]
          exact ih s
      | some job =>
          simp only [timeOut, hFind]
          exact (((registers_tearDown s job).append (registers_released _ job)).append
            (registers_toErlang _ _)).append (ih _)

/-! ## A step of a handler -/

section

variable {W : Type} [DecidableEq W] (p : Process W) (w : W) (env : Env)

/-- Where a worker is after the next step of its handler. -/
def nextHandler : Handler :=
  match p.handler w with
  | .idle => .idle
  | .sweep [] => .idle
  | .sweep (_ :: ids) => .sweep ids
  | .leavingErlang => .idle
  | .leaving _ => .idle
  | .erlang fd =>
      match (p.read fd env).2.2 with
      | .line _ => .erlang fd
      | .more => .idle
      | .closed => .leavingErlang
  | .remote fd =>
      match (p.read fd env).2.2 with
      | .line _ => .remote fd
      | .more => .idle
      | .closed => .leaving fd

/-- **What a turn does to the workers, the descriptors and `erlangfd`.** -/
theorem turn_spec :
    (turn p w env).handler = Function.update p.handler w (nextHandler p w env) ∧
      (turn p w env).kernel = p.kernel.performAll (turnEffects p w env) ∧
      (turn p w env).erlangfd = if p.handler w = .leavingErlang then -1 else p.erlangfd := by
  have hStay : ∀ h, p.handler w = h → p.handler = Function.update p.handler w h := by
    intro h hw
    rw [← hw, Function.update_eq_self]
  cases hHandler : p.handler w with
  | idle =>
      simp only [turn, turnEffects, nextHandler, hHandler]
      exact ⟨hStay _ hHandler, rfl, rfl⟩
  | sweep ids =>
      cases ids with
      | nil =>
          simp only [turn, turnEffects, nextHandler, hHandler]
          exact ⟨rfl, rfl, rfl⟩
      | cons id ids =>
          simp only [turn, turnEffects, nextHandler, hHandler]
          exact ⟨rfl, rfl, rfl⟩
  | leavingErlang =>
      simp only [turn, turnEffects, nextHandler, hHandler]
      exact ⟨rfl, rfl, rfl⟩
  | leaving fd =>
      simp only [turn, turnEffects, nextHandler, hHandler]
      exact ⟨rfl, rfl, rfl⟩
  | erlang fd =>
      simp only [turn, turnEffects, nextHandler, hHandler]
      cases (p.read fd env).2.2 with
      | line text => exact ⟨hStay _ hHandler, rfl, rfl⟩
      | more => exact ⟨rfl, rfl, rfl⟩
      | closed => exact ⟨rfl, rfl, rfl⟩
  | remote fd =>
      simp only [turn, turnEffects, nextHandler, hHandler]
      cases (p.read fd env).2.2 with
      | line text =>
          obtain ⟨grantedOn, hNoted⟩ := (p.hear fd env).noteGrant_eq fd text
          simp only [hNoted]
          refine ⟨hStay _ hHandler, ?_, rfl⟩
          rw [remoteLine, performAll_append]
          rfl
      | more => exact ⟨rfl, rfl, rfl⟩
      | closed =>
          refine ⟨rfl, ?_, rfl⟩
          rw [remoteEnd, performAll_append, performAll_append]
          rfl

omit [DecidableEq W] in
theorem registers_turn : Registers (turnEffects p w env) := by
  cases hHandler : p.handler w with
  | sweep ids =>
      cases ids with
      | nil =>
          simp only [turnEffects, hHandler]
          exact registers_nil
      | cons id ids =>
          simp only [turnEffects, hHandler]
          exact registers_timeOut [id] p.client
  | erlang fd =>
      simp only [turnEffects, hHandler]
      cases (p.read fd env).2.2 with
      | line text => exact registers_erlang _ _ _ _ _
      | more => exact registers_nil
      | closed => exact fun _ hFd => by simp at hFd
  | remote fd =>
      simp only [turnEffects, hHandler]
      cases (p.read fd env).2.2 with
      | line text =>
          exact (registers_harmless (harmless_serverMessage _ _ _ _)).append
            (registers_line _ _ _ _ _)
      | more => exact registers_nil
      | closed =>
          refine ((registers_harmless (harmless_releaseClientByFd _ _ _)).append
            (registers_disconnect _ fd)).append fun _ hFd => ?_
          simp at hFd
  | _ =>
      simp only [turnEffects, hHandler]
      exact registers_nil

end

/-! ## The invariant -/

section

variable {W : Type} [DecidableEq W] {c : Channel W}

/-- The connection at `fd` is the one `erlangfd` leads to. -/
structure Served (c : Channel W) (fd : Int) : Prop where
  erlangfd : c.process.erlangfd = fd
  assigning : ∀ w, c.assigning w = none
  handlers : ∀ w, c.process.handler w = .erlang fd ∨ Apart fd (c.process.handler w)

/-- The connection at `fd` was accepted, and `erlangfd` is not assigned yet. -/
structure Arriving (c : Channel W) (fd : Int) : Prop where
  erlangfd : c.process.erlangfd = -1
  assigning : ∃ w, c.assigning w = some fd ∧ ∀ w', w' ≠ w → c.assigning w' = none
  handlers : ∀ w, Apart fd (c.process.handler w)

structure Kept (c : Channel W) : Prop where
  numbered : Numbered c.process.kernel
  accepted : ∀ n ∈ c.accepted, n < c.process.kernel.opened
  serving : ∀ fd, c.OpenAt fd → 0 ≤ fd ∧ (Served c fd ∨ Arriving c fd)

omit [DecidableEq W] in
theorem kept_start (capacity : Resource → Int) : Kept (Channel.start (W := W) capacity) where
  numbered := ⟨fun _ _ hn => (nomatch hn), fun _ hMonitored => (nomatch hMonitored)⟩
  accepted _ hn := nomatch hn
  serving _ hOpen := by
    obtain ⟨n, hn, -⟩ := hOpen
    cases hn

/-- One worker moves, and no connection is opened to the scheduler. -/
theorem Kept.loop (h : Kept c) {q : Process W} (w : W) (next : Handler)
    (hNumbered : Numbered q.kernel)
    (hOpened : c.process.kernel.opened ≤ q.kernel.opened)
    (hFiles : ∀ fd n, n < c.process.kernel.opened → q.kernel.files fd = some n →
      c.process.kernel.files fd = some n)
    (hHandler : q.handler = Function.update c.process.handler w next)
    (hErlang : ∀ fd, c.OpenAt fd → q.erlangfd = c.process.erlangfd)
    (hServed : ∀ fd, Served c fd → q.kernel.files fd ≠ none → next = .erlang fd ∨ Apart fd next)
    (hArriving : ∀ fd, Arriving c fd → Apart fd next) :
    Kept { c with process := q } where
  numbered := hNumbered
  accepted n hn := Nat.lt_of_lt_of_le (h.accepted n hn) hOpened
  serving fd hOpen := by
    obtain ⟨n, hn, hFile⟩ := hOpen
    have hOld : c.OpenAt fd := ⟨n, hn, hFiles fd n (h.accepted n hn) hFile⟩
    obtain ⟨hFd, hServing⟩ := h.serving fd hOld
    refine ⟨hFd, ?_⟩
    rcases hServing with hCase | hCase
    · refine .inl ⟨(hErlang fd hOld).trans hCase.erlangfd, hCase.assigning, fun v => ?_⟩
      show q.handler v = .erlang fd ∨ Apart fd (q.handler v)
      rw [hHandler]
      by_cases hv : v = w
      · subst hv
        rw [Function.update_self]
        exact hServed fd hCase (by rw [show q.kernel.files fd = some n from hFile]; simp)
      · rw [Function.update_of_ne hv]
        exact hCase.handlers v
    · refine .inr ⟨(hErlang fd hOld).trans hCase.erlangfd, hCase.assigning, fun v => ?_⟩
      show Apart fd (q.handler v)
      rw [hHandler]
      by_cases hv : v = w
      · subst hv
        rw [Function.update_self]
        exact hArriving fd hCase
      · rw [Function.update_of_ne hv]
        exact hCase.handlers v

/-- A worker takes up another handler. -/
theorem Kept.setHandler (h : Kept c) {w : W} {next : Handler}
    (hServed : ∀ fd, Served c fd → next = .erlang fd ∨ Apart fd next)
    (hArriving : ∀ fd, Arriving c fd → Apart fd next) :
    Kept { c with process := c.process.setHandler w next } :=
  h.loop w next h.numbered (le_refl _) (fun _ _ _ hFile => hFile) rfl (fun _ _ => rfl)
    (fun fd hCase _ => hServed fd hCase) hArriving

omit [DecidableEq W] in
theorem accept_spec (hNumbered : Numbered c.process.kernel) (accepted : Accepted) :
    Numbered (c.process.accept accepted).kernel ∧
      c.process.kernel.opened ≤ (c.process.accept accepted).kernel.opened ∧
      ∀ fd n, n < c.process.kernel.opened → (c.process.accept accepted).kernel.files fd = some n →
        c.process.kernel.files fd = some n := by
  cases accepted with
  | refused => exact ⟨hNumbered, le_refl _, fun _ _ _ hFile => hFile⟩
  | epollFails fd =>
      refine ⟨(hNumbered.openFile fd).closeFile fd, Nat.le_succ _, fun fd' n hn hFile => ?_⟩
      have hPerformed : (c.process.kernel.performAll
        [.connect fd 0 ⟨[], 0, [], 0, 0⟩, .close fd]).files fd' = some n := hFile
      exact files_of_performAll hn hPerformed
  | added fd =>
      refine ⟨(hNumbered.openFile fd).monitor fun _ => Int.natCast_nonneg fd, Nat.le_succ _,
        fun fd' n hn hFile => ?_⟩
      have hPerformed : (c.process.kernel.performAll
        [.connect fd 0 ⟨[], 0, [], 0, 0⟩, .epollAdd fd]).files fd' = some n := hFile
      exact files_of_performAll hn hPerformed

/-- The dispatch of an event on `fd`. -/
theorem Kept.dispatch (h : Kept c) {w : W} {fd : Int}
    (hMonitored : c.process.kernel.monitored fd = true) (hNew : ∀ v, c.assigning v ≠ some fd) :
    Kept { c with
      process := c.process.setHandler w
        (if fd = c.process.erlangfd then .erlang fd else .remote fd) } := by
  refine h.setHandler (fun fd₀ hServed => ?_) fun fd₀ hArriving => ?_
  · rw [hServed.erlangfd]
    by_cases hFd : fd = fd₀
    · rw [if_pos hFd, hFd]
      exact .inl rfl
    · rw [if_neg hFd]
      exact .inr hFd
  · have hPos := h.numbered.monitored fd hMonitored
    obtain ⟨v, hv, -⟩ := hArriving.assigning
    rw [hArriving.erlangfd, if_neg (by omega)]
    show fd ≠ fd₀
    rintro rfl
    exact hNew v hv

omit [DecidableEq W] in
/-- A worker that stays apart goes on to a handler that does. -/
theorem apart_nextHandler {p : Process W} {w : W} {env : Env} {fd : Int}
    (h : Apart fd (p.handler w)) : Apart fd (nextHandler p w env) := by
  cases hHandler : p.handler w with
  | erlang fd' =>
      rw [hHandler] at h
      exact h.elim
  | leavingErlang =>
      rw [hHandler] at h
      exact h.elim
  | remote fd' =>
      rw [hHandler] at h
      simp only [nextHandler, hHandler]
      cases (p.read fd' env).2.2 with
      | line text => exact h
      | more => exact True.intro
      | closed => exact True.intro
  | sweep ids =>
      simp only [nextHandler, hHandler]
      cases ids <;> exact True.intro
  | idle =>
      simp only [nextHandler, hHandler]
      exact True.intro
  | leaving fd' =>
      simp only [nextHandler, hHandler]
      exact True.intro

theorem Kept.turn (h : Kept c) (w : W) (env : Env) :
    Kept { c with process := turn c.process w env } := by
  obtain ⟨hHandler, hKernel, hErlang⟩ := turn_spec c.process w env
  have hRegisters := registers_turn c.process w env
  refine h.loop w (nextHandler c.process w env) ?_ ?_ ?_ hHandler ?_ ?_ ?_
  · rw [hKernel]
    exact h.numbered.performAll hRegisters
  · rw [hKernel]
    exact opened_le_performAll _ _
  · rw [hKernel]
    exact fun fd n hn hFile => files_of_performAll hn hFile
  · intro fd hOpen
    rw [hErlang, if_neg]
    intro hLeaving
    rcases (h.serving fd hOpen).2 with hServed | hArriving
    · have hw := hServed.handlers w
      rw [hLeaving] at hw
      rcases hw with hw | hw
      · cases hw
      · exact hw
    · have hw := hArriving.handlers w
      rw [hLeaving] at hw
      exact hw
  · intro fd hServed hFile
    rcases hServed.handlers w with hw | hw
    · simp only [nextHandler, hw]
      rw [hKernel] at hFile
      cases hRead : (c.process.read fd env).2.2 with
      | line text => exact .inl rfl
      | more => exact .inr True.intro
      | closed =>
          -- the connection that has ended is the one that is closed
          refine absurd ?_ hFile
          simp only [turnEffects, hw, hRead, hServed.erlangfd]
          exact Kernel.files_closeFile_self _ fd
    · exact .inr (apart_nextHandler hw)
  · exact fun fd hArriving => apart_nextHandler (hArriving.handlers w)

omit [DecidableEq W] in
/-- While `erlangfd` is -1 and nobody is about to change that, no connection to the
scheduler is open. -/
theorem Kept.not_openAt (h : Kept c) (hErlang : c.process.erlangfd = -1)
    (hAssigning : ∀ w, c.assigning w = none ∨ c.assigning w = some (-1)) (fd : Int) :
    ¬ c.OpenAt fd := by
  intro hOpen
  obtain ⟨hFd, hServed | hArriving⟩ := h.serving fd hOpen
  · have := hServed.erlangfd
    omega
  · obtain ⟨w, hw, -⟩ := hArriving.assigning
    rcases hAssigning w with hNone | hMinus
    · rw [hNone] at hw
      cases hw
    · rw [hMinus, Option.some.injEq] at hw
      omega

theorem Kept.accept (h : Kept c) {w : W} {accepted : Accepted}
    (hExclusive : Exclusive c (.accept w accepted)) :
    Kept (channelStep c (.accept w accepted)) := by
  obtain ⟨hErlang, hAssigning, hApart⟩ := hExclusive
  have hNone := h.not_openAt hErlang hAssigning
  obtain ⟨hNumbered, hOpened, hFiles⟩ := accept_spec h.numbered accepted
  -- a connection that is open afterwards is the new one
  have hOld : ∀ n ∈ c.accepted, ∀ fd, (c.process.accept accepted).kernel.files fd ≠ some n :=
    fun n hn fd hFile => hNone fd ⟨n, hn, hFiles fd n (h.accepted n hn) hFile⟩
  have hBound : ∀ n ∈ c.accepted, n < (c.process.accept accepted).kernel.opened :=
    fun n hn => Nat.lt_of_lt_of_le (h.accepted n hn) hOpened
  cases accepted with
  | refused =>
      refine ⟨hNumbered, hBound, fun fd hOpen => ?_⟩
      obtain ⟨n, hn, hFile⟩ := hOpen
      exact absurd hFile (hOld n hn fd)
  | epollFails fd' =>
      refine ⟨hNumbered, hBound, fun fd hOpen => ?_⟩
      obtain ⟨n, hn, hFile⟩ := hOpen
      exact absurd hFile (hOld n hn fd)
  | added fd' =>
      refine ⟨hNumbered, fun n hn => ?_, fun fd hOpen => ?_⟩
      · rcases List.mem_cons.mp hn with rfl | hn
        · exact Nat.lt_succ_self _
        · exact hBound n hn
      · obtain ⟨n, hn, hFile⟩ := hOpen
        rcases List.mem_cons.mp hn with rfl | hn
        · have hFd : fd = fd' := by
            by_contra hNe
            have hBefore : c.process.kernel.files fd = some c.process.kernel.opened := by
              rw [← c.process.kernel.files_openFile_of_ne hNe]
              exact hFile
            exact absurd (h.numbered.files fd _ hBefore) (Nat.lt_irrefl _)
          subst hFd
          refine ⟨Int.natCast_nonneg fd', .inr ⟨hErlang, ⟨w, Function.update_self .., ?_⟩, ?_⟩⟩
          · intro w' hNe
            exact (Function.update_of_ne hNe ..).trans (hApart w').1
          · exact fun v => (hApart v).2
        · exact absurd hFile (hOld n hn fd)

theorem Kept.assign (h : Kept c) (w : W) : Kept (channelStep c (.assign w)) := by
  cases hw : c.assigning w with
  | none =>
      simp only [channelStep, hw]
      exact h
  | some fd' =>
      simp only [channelStep, hw]
      refine ⟨h.numbered, h.accepted, fun fd hOpen => ?_⟩
      obtain ⟨hFd, hServed | hArriving⟩ := h.serving fd hOpen
      · rw [hServed.assigning w] at hw
        cases hw
      · obtain ⟨v, hv, hOthers⟩ := hArriving.assigning
        have hSame : w = v := by
          by_contra hNe
          rw [hOthers w hNe] at hw
          cases hw
        subst hSame
        rw [hv, Option.some.injEq] at hw
        refine ⟨hFd, .inl ⟨hw.symm, fun w' => ?_, fun w' => .inr (hArriving.handlers w')⟩⟩
        by_cases hNe : w' = w
        · rw [hNe]
          exact Function.update_self ..
        · exact (Function.update_of_ne hNe ..).trans (hOthers w' hNe)

theorem Kept.step (h : Kept c) {e : ChannelEvent W} (hTakes : Takes c e)
    (hExclusive : Exclusive c e) : Kept (channelStep c e) := by
  cases e with
  | accept w accepted => exact h.accept hExclusive
  | assign w => exact h.assign w
  | loop e =>
      obtain ⟨hFree, hNotErlang, hEnabled⟩ := hTakes
      cases e with
      | connectErlang w accepted => cases hNotErlang
      | connectClient w accepted =>
          obtain ⟨hNumbered, hOpened, hFiles⟩ := accept_spec h.numbered accepted
          obtain ⟨kernel, hAccept⟩ := c.process.accept_eq accepted
          have hIdle : c.process.handler w = .idle := hEnabled.1
          refine h.loop w .idle hNumbered hOpened hFiles ?_ ?_ ?_ ?_
          · show (c.process.accept accepted).handler = _
            rw [hAccept, ← hIdle, Function.update_eq_self]
          · intro _ _
            show (c.process.accept accepted).erlangfd = _
            rw [hAccept]
          · exact fun _ _ _ => .inr True.intro
          · exact fun _ _ => True.intro
      | tick w now => exact h.setHandler (fun _ _ => .inr True.intro) fun _ _ => True.intro
      | readable w fd => exact h.dispatch hEnabled.2 hExclusive
      | writable w fd =>
          by_cases hErlang : fd = c.process.erlangfd
          · have hPos := h.numbered.monitored fd hEnabled.2
            simp only [channelStep, loopStep, if_pos hErlang]
            refine h.setHandler (fun fd₀ hServed => ?_) fun fd₀ hArriving => ?_
            · rw [hErlang, hServed.erlangfd]
              exact .inl rfl
            · rw [hErlang, hArriving.erlangfd] at hPos
              omega
          · have hIdle : c.process.handler w = .idle := hEnabled.1
            simp only [channelStep, loopStep, if_neg hErlang]
            refine h.loop w .idle ?_ ?_ ?_ ?_ (fun _ _ => rfl) ?_ ?_
            · exact h.numbered.performAll (registers_harmless (harmless_sendRequest _ fd))
            · exact opened_le_performAll _ _
            · exact fun _ _ hn hFile => files_of_performAll hn hFile
            · show c.process.handler = _
              rw [← hIdle, Function.update_eq_self]
            · exact fun _ _ _ => .inr True.intro
            · exact fun _ _ => True.intro
      | turn w env => exact h.turn w env

omit [DecidableEq W] in
theorem Kept.attended (h : Kept c) : Attended c := by
  intro fd hOpen
  obtain ⟨-, hServed | hArriving⟩ := h.serving fd hOpen
  · refine ⟨fun _ => hServed.erlangfd, fun w hw => ?_⟩
    rcases hServed.handlers w with hErlang | hApart
    · rw [hw] at hErlang
      cases hErlang
    · rw [hw] at hApart
      exact hApart rfl
  · obtain ⟨w, hw, -⟩ := hArriving.assigning
    refine ⟨fun hAll => ?_, fun v hv => ?_⟩
    · rw [hAll w] at hw
      cases hw
    · have hApart := hArriving.handlers v
      rw [hv] at hApart
      exact hApart rfl

theorem Kept.rightlyServed (h : Kept c) {e : ChannelEvent W} (hExclusive : Exclusive c e) :
    RightlyServed c e := by
  cases e with
  | accept w accepted => trivial
  | assign w => trivial
  | loop e =>
      cases e with
      | readable w fd =>
          intro hOpen
          obtain ⟨-, hServed | hArriving⟩ := h.serving fd hOpen
          · show Function.update c.process.handler w _ w = _
            rw [Function.update_self, if_pos hServed.erlangfd.symm]
          · obtain ⟨v, hv, -⟩ := hArriving.assigning
            exact absurd hv (hExclusive v)
      | turn w env =>
          intro fd hOpen hHandler hRead
          obtain ⟨-, hServed | hArriving⟩ := h.serving fd hOpen
          · simp only [turnEffects, hHandler, hRead, hServed.erlangfd]
          · have hApart := hArriving.handlers w
            rw [hHandler] at hApart
            exact hApart.elim
      | _ => trivial

end

/-- **The channel is never lost.**  Any number of workers serve `socket_erlang`, the
connections to the scheduler and everything else, in any order.  If `socket_erlang` is
served exclusively, then in every state an open connection to the scheduler is the one
`erlangfd` leads to, its lines are handed to `erlang_to_C` and never to
`client_to_myserver`, and its end closes it and no other connection. -/
theorem channel_is_kept {W : Type} [DecidableEq W] (capacity : Resource → Int)
    (es : List (ChannelEvent W))
    (hMeets : Meets channelStep (fun c e => Takes c e ∧ Exclusive c e)
      (Channel.start capacity) es) :
    Attended (run channelStep (Channel.start capacity) es) ∧
      Meets channelStep RightlyServed (Channel.start capacity) es := by
  constructor
  · have hKept : Kept (run channelStep (Channel.start capacity) es) :=
      run_invariant Kept (fun _ _ h hOk => h.step hOk.1 hOk.2) (kept_start capacity) hMeets
    exact hKept.attended
  · exact Meets.of_invariant Kept
      (fun _ _ h hOk => ⟨h.step hOk.1 hOk.2, h.rightlyServed hOk.2⟩) (kept_start capacity) hMeets

/-- The scheduler connects, asks for the nodes and closes; then it connects again and gets
the same descriptor. -/
def connectedTwice : List (ChannelEvent Bool) :=
  [.accept true .refused, .assign true, .accept false (.added 4), .assign false,
    .loop (.readable true 4), .loop (.turn true (arrival (.data "GET_NODES\n".toList) .noSocket)),
    .loop (.turn true (arrival .eof .noSocket)), .loop (.turn true (arrival .again .noSocket)),
    .accept true (.added 4), .assign true, .loop (.readable false 4)]

theorem channel_is_kept_connectedTwice :
    Meets channelStep (fun c e => Takes c e ∧ Exclusive c e) (Channel.start fun _ => 0)
        connectedTwice ∧
      (run channelStep (Channel.start fun _ => 0) connectedTwice).OpenAt 4 ∧
      Attended (run channelStep (Channel.start fun _ => 0) connectedTwice) := by
  have hMeets : Meets channelStep (fun c e => Takes c e ∧ Exclusive c e)
      (Channel.start fun _ => 0) connectedTwice := by decide +kernel
  exact ⟨hMeets, by decide +kernel, (channel_is_kept _ _ hMeets).1⟩

/-- Two workers are woken for one connection; the second one finds none. -/
def wokenTwice : List (ChannelEvent Bool) :=
  [.accept false (.added 4), .assign false, .accept true .refused, .assign true]

/-- The scheduler connects again while a worker reads the end of its first connection. -/
def reconnecting : List (ChannelEvent Bool) :=
  [.accept false (.added 4), .assign false, .loop (.readable false 4), .accept true (.added 5),
    .assign true]

/-- In the first run `erlangfd` is -1 while the connection is open, and its lines go to
`client_to_myserver`; in the second one the end of the first connection closes the new
one. -/
theorem channel_is_lost :
    (Meets channelStep Takes (Channel.start fun _ => 0) wokenTwice ∧
      (run channelStep (Channel.start fun _ => 0) wokenTwice).OpenAt 4 ∧
      ¬ Attended (run channelStep (Channel.start fun _ => 0) wokenTwice) ∧
      (run channelStep (Channel.start fun _ => 0)
        (wokenTwice ++ [.loop (.readable false 4)])).process.handler false = .remote 4) ∧
    (Meets channelStep Takes (Channel.start fun _ => 0) reconnecting ∧
      (run channelStep (Channel.start fun _ => 0) reconnecting).OpenAt 4 ∧
      (run channelStep (Channel.start fun _ => 0) reconnecting).OpenAt 5 ∧
      turnEffects (run channelStep (Channel.start fun _ => 0) reconnecting).process false
        (arrival .eof .noSocket) = [.epollDel 5, .close 5]) := by
  refine ⟨⟨by decide +kernel, by decide +kernel, fun h => ?_, by decide +kernel⟩,
    by decide +kernel⟩
  have hErlang := (h 4 (by decide +kernel)).1 (by decide +kernel)
  revert hErlang
  decide +kernel

end ResourceAgent.Ports.ErlangChannel
