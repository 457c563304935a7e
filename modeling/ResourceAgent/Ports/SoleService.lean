import ResourceAgent.Ports.OneShot
import ResourceAgent.Verified.Potential

/-!
# One worker at a time

One-shot delivery is what keeps two workers from reading one connection, and from running a
timer twice.  `Sole` is its invariant for one source: it is in the hands of at most one
worker, there at most once, and is not armed meanwhile.

What a worker has in hand is a number, and it may be closed and given to a new connection
before the worker comes to it; the new connection is armed, and a second worker gets it.
`Unclaimed` excludes just that.  Timers are never closed, so for them nothing is excluded.

Under `Unclaimed` every connection is sent at most one RESERVE (`one_reserve`): it is armed for
output once, when it is dialed.
-/

namespace ResourceAgent.Ports.SoleService

open ResourceAgent.Ports.Records
open ResourceAgent.Ports.Wire
open ResourceAgent.Ports.Client
open ResourceAgent.Ports.Reservation
open ResourceAgent.Ports.Framing
open ResourceAgent.Ports.EventLoop
open ResourceAgent.Ports.ErlangChannel
open ResourceAgent.Ports.Ownership
open ResourceAgent.Ports.OneShot
open ResourceAgent.Ports.OneShot.Reactor
open ResourceAgent.Verified.CText
open ResourceAgent.Verified.Runs
open ResourceAgent.Verified.Potential

/-! ## The invariant -/

section

variable {W : Type}

structure Sole (r : Reactor W) (source : Source) : Prop where
  once : ∀ w, (r.held w).count source ≤ 1
  alone : ∀ w w', source ∈ r.held w → source ∈ r.held w' → w = w'
  disarmed : ∀ w, source ∈ r.held w → r.monitors source = true → r.interest source = .off

/-- The sources that a step registers. -/
def registers (r : Reactor W) : ReactorEvent W → List Source
  | .accept _ (.added fd) => [.connection fd]
  | .connectClient _ (.added fd) => [.connection fd]
  | .turn w env => (turnEffects r.process w env).filterMap fun
      | .epollAdd fd => some (.connection fd)
      | _ => none
  | _ => []

/-- The source is not registered while a worker has it in hand. -/
def Unclaimed (source : Source) (r : Reactor W) (e : ReactorEvent W) : Prop :=
  source ∈ registers r e → ∀ w, source ∉ r.held w

instance [Fintype W] (source : Source) (r : Reactor W) (e : ReactorEvent W) :
    Decidable (Unclaimed source r e) :=
  inferInstanceAs (Decidable (source ∈ registers r e → ∀ w, source ∉ r.held w))

theorem registers_turn_of_add {r : Reactor W} {w : W} {env : Env} {fd : Int}
    (h : .epollAdd fd ∈ turnEffects r.process w env) :
    .connection fd ∈ registers r (.turn w env) :=
  List.mem_filterMap.mpr ⟨_, h, rfl⟩

theorem timer_unclaimed {timer : Source} (hTimer : ∀ fd, timer ≠ .connection fd) (r : Reactor W)
    (e : ReactorEvent W) : Unclaimed timer r e := by
  intro hMem
  refine absurd hMem ?_
  cases e with
  | accept w accepted => cases accepted <;> simp [registers, hTimer]
  | connectClient w accepted => cases accepted <;> simp [registers, hTimer]
  | turn w env =>
      intro hMem
      obtain ⟨e, -, he⟩ := List.mem_filterMap.mp hMem
      cases e with
      | epollAdd fd => exact hTimer fd (Option.some.inj he).symm
      | _ => cases he
  | _ => exact List.not_mem_nil

theorem sole_start (capacity : Resource → Int) (source : Source) :
    Sole (Reactor.start (W := W) capacity) source where
  once _ := Nat.zero_le _
  alone _ _ hHeld := nomatch hHeld
  disarmed _ hHeld := nomatch hHeld

variable {r : Reactor W} {source : Source}

/-- What nobody takes up, and nobody arms while it is in hand, stays with one worker. -/
theorem Sole.mono (h : Sole r source) {q : Reactor W}
    (hHeld : ∀ w, (q.held w).count source ≤ (r.held w).count source)
    (hDisarmed : ∀ w, source ∈ q.held w → q.monitors source = true →
      r.monitors source = true ∧ q.interest source = r.interest source) : Sole q source := by
  have hBefore : ∀ w, source ∈ q.held w → source ∈ r.held w := by
    intro w hMem
    have := List.count_pos_iff.mpr hMem
    exact List.count_pos_iff.mp (by have := hHeld w; omega)
  refine ⟨fun w => (hHeld w).trans (h.once w), fun w w' hw hw' => ?_, fun w hw hMonitors => ?_⟩
  · exact h.alone w w' (hBefore w hw) (hBefore w' hw')
  · obtain ⟨hOld, hSame⟩ := hDisarmed w hw hMonitors
    exact hSame.trans (h.disarmed w (hBefore w hw) hOld)

/-- What the only worker that has it puts down is in nobody's hands. -/
theorem Sole.dropped (h : Sole r source) {q : Reactor W} {w : W} {rest : List Source}
    (hBefore : r.held w = source :: rest) (hAfter : q.held w = rest)
    (hOthers : ∀ w', w' ≠ w → q.held w' = r.held w') (w' : W) : source ∉ q.held w' := by
  intro hMem
  by_cases hw : w' = w
  · subst hw
    rw [hAfter] at hMem
    have hCount := h.once w'
    rw [hBefore, List.count_cons_self] at hCount
    have := List.count_pos_iff.mpr hMem
    omega
  · rw [hOthers w' hw] at hMem
    exact hw (h.alone w' w hMem (hBefore ▸ List.mem_cons_self))

end

/-! ## Steps -/

section

variable {W : Type} [DecidableEq W] {r : Reactor W} {source : Source}

theorem held_wait {w : W} {ready : List Ready} (hIdle : r.process.handler w = .idle) (w' : W) :
    (reactorStep r (.wait w ready)).held w' =
      if w' = w then ready.map Ready.source else r.held w' := by
  by_cases hw : w' = w
  · subst hw
    rw [if_pos rfl]
    simp only [held, reactorStep, Function.update_self]
    rw [hIdle]
    rfl
  · rw [if_neg hw]
    simp only [held, reactorStep, Function.update_of_ne hw]

theorem Sole.wait (h : Sole r source) {w : W} {ready : List Ready}
    (hIdle : r.process.handler w = .idle) (hReports : Reports r ready) :
    Sole (reactorStep r (.wait w ready)) source := by
  have hHeld := @held_wait _ _ r w ready hIdle
  by_cases hReady : source ∈ ready.map Ready.source
  · -- it was armed, so nobody had it
    have hNone : ∀ w', source ∉ r.held w' := by
      intro w' hMem
      obtain ⟨e, he, hSource⟩ := List.mem_map.mp hReady
      obtain ⟨hMonitors, hArmed, -⟩ := hReports.2.2 e he
      rw [hSource] at hMonitors hArmed
      exact hArmed (h.disarmed w' hMem hMonitors)
    have hOnly : ∀ w', source ∈ (reactorStep r (.wait w ready)).held w' → w' = w := by
      intro w' hMem
      by_contra hw
      rw [hHeld, if_neg hw] at hMem
      exact hNone w' hMem
    refine ⟨fun w' => ?_, fun w' w'' hw' hw'' => (hOnly w' hw').trans (hOnly w'' hw'').symm,
      fun _ _ _ => if_pos hReady⟩
    rw [hHeld]
    split
    · exact List.nodup_iff_count_le_one.mp hReports.2.1 source
    · exact h.once w'
  · refine h.mono (fun w' => ?_) fun w' _ hMonitors => ⟨hMonitors, if_neg hReady⟩
    rw [hHeld]
    split
    · rw [List.count_eq_zero_of_not_mem hReady]
      exact Nat.zero_le _
    · exact le_refl _

omit [DecidableEq W] in
/-- What a worker has in hand when it comes to the next element of its array. -/
theorem held_of_events {w : W} {e : Ready} {rest : List Ready}
    (hIdle : r.process.handler w = .idle) (hEvents : r.events w = e :: rest) :
    r.held w = e.source :: rest.map Ready.source := by
  rw [held, hIdle, hEvents]
  rfl

theorem Sole.next (h : Sole r source) {w : W} {readFails : Bool} {now : Int}
    (hIdle : r.process.handler w = .idle) :
    Sole (reactorStep r (.next w readFails now)) source := by
  simp only [reactorStep]
  split
  · exact h
  rename_i e rest hEvents
  have hBefore := held_of_events hIdle hEvents
  obtain ⟨src, out⟩ := e
  set p : Reactor W := { r with events := Function.update r.events w rest } with hp
  have hOthers : ∀ w', w' ≠ w → p.held w' = r.held w' := by
    intro w' hw
    simp only [held, hp, Function.update_of_ne hw]
  have hPopped : p.held w = rest.map Ready.source := by
    simp only [held, hp, Function.update_self]
    rw [hIdle]
    rfl
  have hFewer : ∀ w', (p.held w').count source ≤ (r.held w').count source := by
    intro w'
    by_cases hw : w' = w
    · rw [hw, hPopped, hBefore]
      exact List.count_le_count_cons
    · rw [hOthers w' hw]
  -- the element is put down, and its source may be armed
  have hPut : ∀ q : Reactor W, q.channel = p.channel → q.events = p.events →
      (∀ source', source' ≠ src → q.interest source' = r.interest source') → Sole q source := by
    intro q hChannel hRest hInterest
    have hHeld : ∀ w', q.held w' = p.held w' := by
      intro w'
      simp only [held, Reactor.process, hChannel, hRest]
    refine h.mono (fun w' => (congrArg _ (hHeld w')).trans_le (hFewer w'))
      fun w' hMem hMonitors => ?_
    refine ⟨?_, hInterest source ?_⟩
    · have hSame : q.monitors source = p.monitors source := by
        cases source <;> simp only [monitors, Reactor.process, hChannel]
      exact hSame ▸ hMonitors
    · rintro rfl
      exact h.dropped hBefore ((hHeld w).trans hPopped)
        (fun w'' hw => (hHeld w'').trans (hOthers w'' hw)) w' hMem
  -- the worker goes on with it
  have hKeep : ∀ next : Handler, serving next = [src] →
      Sole { p with channel := { p.channel with process := p.process.setHandler w next } }
        source := by
    intro next hNext
    refine h.mono (fun w' => ?_) fun w' _ hMonitors => ⟨?_, rfl⟩
    · by_cases hw : w' = w
      · subst hw
        rw [hBefore]
        simp only [held, Process.setHandler, hp, Function.update_self, hNext,
          List.singleton_append]
        exact le_refl _
      · simp only [held, Process.setHandler, hp, Function.update_of_ne hw]
        exact le_refl _
    · cases source <;> exact hMonitors
  cases src with
  | broadcastTimer =>
      cases readFails with
      | true => exact hPut p rfl rfl fun _ _ => rfl
      | false => exact hPut (p.arm .broadcastTimer .input) rfl rfl fun _ hSource =>
          interest_arm_of_ne hSource
  | timeoutTimer =>
      cases readFails with
      | true => exact hPut p rfl rfl fun _ _ => rfl
      | false =>
          have hEq : p.dispatch w false now ⟨.timeoutTimer, out⟩ =
              { p with channel := channelStep p.channel (.loop (.tick w now)) } := act_eq rfl
          rw [hEq]
          exact hKeep _ rfl
  | connection fd =>
      cases dispatched p w readFails now fd out with
      | reads next hNext _ hEq =>
          rw [hEq]
          exact hKeep next (by rcases hNext with rfl | rfl <;> rfl)
      | sends line _ _ hEq =>
          rw [hEq]
          exact hPut _ (rearm_channel _) (rearm_events _) fun _ hSource =>
            interest_rearm_of_ne hSource
      | skips _ _ _ hEq =>
          rw [hEq]
          exact hPut p rfl rfl fun _ _ => rfl

omit [DecidableEq W] in
/-- `accept4` and `epoll_ctl` ADD. -/
theorem Sole.accept (h : Sole r source) {q : Reactor W} {accepted : Accepted}
    (hProcess : q.process = r.process.accept accepted) (hInterest : q.interest = r.interest)
    (hEvents : q.events = r.events)
    (hUnclaimed : ∀ fd, accepted = .added fd → source = .connection fd → ∀ w, source ∉ r.held w) :
    Sole (q.added accepted) source := by
  obtain ⟨kernel, hAccept⟩ := r.process.accept_eq accepted
  have hHeld : ∀ w, (q.added accepted).held w = r.held w := by
    intro w
    have hHandler : (q.added accepted).process.handler = r.process.handler := by
      rw [Reactor.process, added_channel, ← Reactor.process, hProcess, hAccept]
    rw [held, hHandler, added_events, hEvents]
    rfl
  have hKernel : (q.added accepted).process.kernel = (r.process.accept accepted).kernel := by
    rw [Reactor.process, added_channel, ← Reactor.process, hProcess]
  refine h.mono (fun w => (congrArg _ (hHeld w)).le) fun w hMem hMonitors => ?_
  rw [hHeld] at hMem
  cases accepted with
  | refused =>
      refine ⟨?_, congrFun hInterest source⟩
      cases source with
      | connection fd =>
          simp only [monitors, hKernel] at hMonitors
          exact hMonitors
      | _ => rfl
  | epollFails fd' =>
      refine ⟨?_, congrFun hInterest source⟩
      cases source with
      | connection fd =>
          simp only [monitors, hKernel, Process.accept, Kernel.closeFile] at hMonitors
          by_cases hSame : fd = fd'
          · rw [hSame, Function.update_self] at hMonitors
            cases hMonitors
          · rw [Function.update_of_ne hSame] at hMonitors
            exact hMonitors
      | _ => rfl
  | added fd' =>
      have hNe : source ≠ .connection fd' := fun hSame => hUnclaimed fd' rfl hSame w hMem
      refine ⟨?_, (interest_arm_of_ne hNe).trans (congrFun hInterest source)⟩
      cases source with
      | connection fd =>
          have hFd : fd ≠ fd' := fun hSame => hNe (by rw [hSame])
          simp only [monitors, hKernel, Process.accept, Kernel.monitor,
            Function.update_of_ne hFd] at hMonitors
          exact hMonitors
      | _ => rfl

omit [DecidableEq W] in
/-- After a turn a worker serves what it served, or nothing; only then something is re-armed. -/
theorem serving_next (r : Reactor W) (w : W) (env : Env) :
    (serving (nextHandler r.process w env) = serving (r.process.handler w) ∧
        r.restart w env = none) ∨
      (serving (nextHandler r.process w env) = [] ∧
        ∀ source ∈ r.restart w env, serving (r.process.handler w) = [source]) := by
  cases hw : r.process.handler w with
  | erlang fd =>
      simp only [nextHandler, restart, hw]
      cases (r.process.read fd env).2.2 with
      | line text => exact .inl ⟨rfl, rfl⟩
      | more => exact .inr ⟨rfl, fun source hSource => by cases hSource; rfl⟩
      | closed => exact .inr ⟨rfl, fun source hSource => by cases hSource⟩
  | remote fd =>
      simp only [nextHandler, restart, hw]
      cases (r.process.read fd env).2.2 with
      | line text => exact .inl ⟨rfl, rfl⟩
      | more => exact .inr ⟨rfl, fun source hSource => by cases hSource; rfl⟩
      | closed => exact .inr ⟨rfl, fun source hSource => by cases hSource⟩
  | sweep ids =>
      cases ids with
      | nil =>
          simp only [nextHandler, restart, hw]
          exact .inr ⟨rfl, fun source hSource => by cases hSource; rfl⟩
      | cons id ids =>
          simp only [nextHandler, restart, hw]
          exact .inl ⟨rfl, trivial⟩
  | idle =>
      simp only [nextHandler, restart, hw]
      exact .inl ⟨trivial, trivial⟩
  | leavingErlang =>
      simp only [nextHandler, restart, hw]
      exact .inl ⟨rfl, trivial⟩
  | leaving fd =>
      simp only [nextHandler, restart, hw]
      exact .inl ⟨rfl, trivial⟩

theorem held_turn (w : W) (env : Env) (w' : W) :
    (r.act (.turn w env)).held w' =
      if w' = w then serving (nextHandler r.process w env) ++ (r.events w).map Ready.source
      else r.held w' := by
  have hHandler : (r.act (.turn w env)).process.handler =
      Function.update r.process.handler w (nextHandler r.process w env) := by
    rw [act_process]
    exact (turn_spec r.process w env).1
  by_cases hw : w' = w
  · subst hw
    rw [held, hHandler, Function.update_self, act_events, if_pos rfl]
  · rw [held, hHandler, Function.update_of_ne hw, act_events, if_neg hw]
    rfl

/-- What a turn arms it has registered. -/
theorem interest_turn {w : W} {env : Env} (hNew : source ∉ registers r (.turn w env)) :
    (r.act (.turn w env)).interest source = r.interest source := by
  rcases @interest_performAll _
    { r with channel := channelStep r.channel (.loop (.turn w env)) } source
    (turnEffects r.process w env) with hSame | ⟨fd, hSource, ⟨hAdd, -⟩ | ⟨hMod, -⟩⟩
  · exact hSame
  · rw [hSource] at hNew
    exact absurd (registers_turn_of_add hAdd) hNew
  · exact absurd hMod ((arming_turn r.process w env).not_mod fd)

theorem monitors_turn {w : W} {env : Env} (hNew : source ∉ registers r (.turn w env))
    (h : (r.act (.turn w env)).monitors source = true) : r.monitors source = true := by
  cases source with
  | connection fd =>
      simp only [monitors, act_process] at h
      have hKernel : (loopStep r.process (.turn w env)).kernel =
          r.process.kernel.performAll (turnEffects r.process w env) :=
        (turn_spec r.process w env).2.1
      rw [hKernel] at h
      rcases monitored_performAll h with ⟨hOld, -⟩ | hAdd
      · exact hOld
      · exact absurd (registers_turn_of_add hAdd) hNew
  | _ => rfl

theorem Sole.turn (h : Sole r source) {w : W} {env : Env}
    (hUnclaimed : Unclaimed source r (.turn w env)) :
    Sole (reactorStep r (.turn w env)) source := by
  have hHeld := @held_turn _ _ r w env
  have hFewer : ∀ w', ((r.act (.turn w env)).held w').count source ≤
      (r.held w').count source := by
    intro w'
    rw [hHeld]
    split
    · rename_i hw
      subst hw
      rw [held, List.count_append, List.count_append]
      rcases serving_next r w' env with ⟨hSame, -⟩ | ⟨hNone, -⟩
      · rw [hSame]
      · rw [hNone, List.count_nil, Nat.zero_add]
        exact Nat.le_add_left _ _
    · exact le_refl _
  have hTurned : Sole (r.act (.turn w env)) source := by
    refine h.mono hFewer fun w' hMem hMonitors => ?_
    have hNew : source ∉ registers r (.turn w env) := by
      intro hNew
      have := List.count_pos_iff.mpr hMem
      have hBefore := hFewer w'
      exact hUnclaimed hNew w' (List.count_pos_iff.mp (by omega))
    exact ⟨monitors_turn hNew hMonitors, interest_turn hNew⟩
  simp only [reactorStep]
  cases hRestart : r.restart w env with
  | none => exact hTurned
  | some source' =>
      have hChannel : ((r.act (.turn w env)).rearm source').channel =
          (r.act (.turn w env)).channel := rearm_channel _
      have hEq : ∀ w', ((r.act (.turn w env)).rearm source').held w' =
          (r.act (.turn w env)).held w' := by
        intro w'
        simp only [held, Reactor.process, hChannel, rearm_events]
      refine hTurned.mono (fun w' => (congrArg _ (hEq w')).le) fun w' hMem hMonitors => ?_
      rw [hEq] at hMem
      refine ⟨?_, interest_rearm_of_ne ?_⟩
      · cases source with
        | connection fd => simpa only [monitors, Reactor.process, hChannel] using hMonitors
        | _ => rfl
      · rintro rfl
        -- the worker has put it down, and nobody else had it
        rcases serving_next r w env with ⟨-, hNone⟩ | ⟨hNone, hServed⟩
        · rw [hRestart] at hNone
          cases hNone
        · have hBefore : r.held w = source :: (r.events w).map Ready.source := by
            rw [held, hServed _ hRestart]
            rfl
          refine h.dropped hBefore ?_ (fun w'' hw => ?_) w' hMem
          · rw [hHeld, if_pos rfl, hNone, List.nil_append]
          · rw [hHeld, if_neg hw]

theorem Sole.step (h : Sole r source) {e : ReactorEvent W} (hPossible : Possible r e)
    (hUnclaimed : Unclaimed source r e) : Sole (reactorStep r e) source := by
  cases e with
  | wait w ready => exact h.wait hPossible.2.1 hPossible.2.2.2
  | next w readFails now => exact h.next hPossible.2
  | accept w accepted =>
      refine h.accept rfl rfl rfl fun fd hAdded hSource w' => hUnclaimed ?_ w'
      rw [hAdded, hSource]
      exact List.mem_cons_self
  | assign w =>
      have hProcess : ∃ erlangfd, (channelStep r.channel (.assign w)).process =
          { r.process with erlangfd := erlangfd } := by
        simp only [channelStep]
        cases r.channel.assigning w with
        | none => exact ⟨r.process.erlangfd, rfl⟩
        | some fd => exact ⟨fd, rfl⟩
      obtain ⟨erlangfd, hProcess⟩ := hProcess
      refine h.mono (fun w' => ?_) fun w' _ hMonitors => ⟨?_, rfl⟩
      · simp only [held, reactorStep, Reactor.process, hProcess]
        exact le_refl _
      · cases source with
        | connection fd =>
            simpa only [monitors, reactorStep, Reactor.process, hProcess] using hMonitors
        | _ => rfl
  | connectClient w accepted =>
      simp only [reactorStep, act_eq (rfl : stepEffects r.process (.connectClient w accepted) = [])]
      refine h.accept rfl rfl rfl fun fd hAdded hSource w' => hUnclaimed ?_ w'
      rw [hAdded, hSource]
      exact List.mem_cons_self
  | turn w env => exact h.turn hUnclaimed

/-- **One worker at a time.**  In every run in which a descriptor is not given to a new
connection while a worker has it in hand, it is never in the hands of two workers, nor twice
in those of one, nor armed while it is in hand; for the timers, in every run. -/
theorem sole_service {capacity : Resource → Int} {es : List (ReactorEvent W)}
    (hPossible : Meets reactorStep Possible (start capacity) es) :
    (∀ fd, Meets reactorStep (Unclaimed (.connection fd)) (start capacity) es →
        Sole (run reactorStep (start capacity) es) (.connection fd)) ∧
      Sole (run reactorStep (start capacity) es) .broadcastTimer ∧
      Sole (run reactorStep (start capacity) es) .timeoutTimer := by
  have hSole : ∀ source, Meets reactorStep (Unclaimed source) (start capacity) es →
      Sole (run reactorStep (start capacity) es) source := by
    intro source hUnclaimed
    exact run_invariant (fun r => Sole r source) (fun _ _ h hOk => h.step hOk.1 hOk.2)
      (sole_start capacity source) (hPossible.and hUnclaimed)
  refine ⟨fun fd => hSole _, hSole _ ?_, hSole _ ?_⟩
  · exact Meets.of_invariant (fun _ => True)
      (fun r e _ _ => ⟨trivial, timer_unclaimed (by simp) r e⟩) trivial hPossible
  · exact Meets.of_invariant (fun _ => True)
      (fun r e _ _ => ⟨trivial, timer_unclaimed (by simp) r e⟩) trivial hPossible

end

/-- A node connects on descriptor 5 and closes; the next one gets the descriptor. -/
def inTurn : List (ReactorEvent Bool) :=
  [.connectClient false (.added 5), .wait true [⟨.connection 5, false⟩], .next true false 0,
    .wait false [⟨.timeoutTimer, false⟩], .turn true (arrival .eof .noSocket),
    .next false false 0, .turn true (arrival .again .noSocket), .connectClient true (.added 5),
    .wait true [⟨.broadcastTimer, false⟩, ⟨.connection 5, false⟩]]

theorem sole_service_inTurn :
    Source.connection 5 ∈ (run reactorStep (start fun _ => 0) inTurn).held true ∧
      Source.timeoutTimer ∈ (run reactorStep (start fun _ => 0) inTurn).held false ∧
      Sole (run reactorStep (start fun _ => 0) inTurn) (.connection 5) ∧
      Sole (run reactorStep (start fun _ => 0) inTurn) .timeoutTimer := by
  have hPossible : Meets reactorStep Possible (start fun _ => 0) inTurn := by decide +kernel
  have hUnclaimed : Meets reactorStep (Unclaimed (.connection 5)) (start fun _ => 0) inTurn := by
    decide +kernel
  have hSole := sole_service hPossible
  exact ⟨by decide +kernel, by decide +kernel, hSole.1 5 hUnclaimed, hSole.2.2⟩

/-- The connection of a request is closed by JOB_RELEASE while the other worker has it in its
array; the next node to connect gets the descriptor, and both workers read from it. -/
def claimed : List (ReactorEvent Bool) :=
  [.accept false (.added 4), .assign false, .wait false [⟨.connection 4, false⟩],
    .next false false 0,
    .turn false (arrival (.data "JOB_REQUEST 1001 @10.0.0.1:cpu:1\n".toList) (.connected 5)),
    .wait true [⟨.connection 5, true⟩], .next true false 0, .wait true [⟨.connection 5, false⟩],
    .turn false (arrival (.data "JOB_RELEASE 1001\n".toList) .noSocket),
    .turn false (arrival .again .noSocket), .connectClient false (.added 5),
    .wait false [⟨.connection 5, false⟩], .next false false 0, .next true false 0]

example :
    Meets reactorStep Possible (start fun _ => 0) claimed ∧
      (run reactorStep (start fun _ => 0) claimed).process.handler false = .remote 5 ∧
      (run reactorStep (start fun _ => 0) claimed).process.handler true = .remote 5 := by
  decide +kernel

/-! ## What is sent on a connection -/

/-- A RESERVE line sent on connection `c`. -/
def isReserveOn (c : Nat) : Option Nat × Effect → Bool
  | (some c', .send _ line) => c' = c && decide (IsReserve line)
  | _ => false

/-- The RESERVE lines that effects send on `c`. -/
def reservesOn (c : Nat) (k : Kernel) (out : List Effect) : Nat :=
  (k.resolve out).countP (isReserveOn c)

section

variable {W : Type} [DecidableEq W]

/-- The effects of a step. -/
def reactorEffects (r : Reactor W) : ReactorEvent W → List Effect
  | .next w _ _ =>
      match r.events w with
      | ⟨.connection fd, out⟩ :: _ =>
          stepEffects r.process (if out then .writable w fd else .readable w fd)
      | _ => []
  | .turn w env => turnEffects r.process w env
  | _ => []

/-- The RESERVE lines that a run sends on `c`. -/
def reserves (c : Nat) : Reactor W → List (ReactorEvent W) → Nat :=
  spent reactorStep fun r e => reservesOn c r.process.kernel (reactorEffects r e)

end

/-- Open descriptors lead to connections of their own. -/
structure Distinct (k : Kernel) : Prop where
  numbered : ∀ fd c, k.files fd = some c → c < k.opened
  injective : ∀ fd fd' c, k.files fd = some c → k.files fd' = some c → fd = fd'

section

variable {k : Kernel}

theorem Distinct.openFile (h : Distinct k) (fd : Int) : Distinct (k.openFile fd) := by
  have hOld : ∀ fd' c, (k.openFile fd).files fd' = some c →
      (fd' = fd ∧ c = k.opened) ∨ (fd' ≠ fd ∧ k.files fd' = some c) := by
    intro fd' c hc
    by_cases hFd : fd' = fd
    · rw [hFd, k.files_openFile_self, Option.some.injEq] at hc
      exact .inl ⟨hFd, hc.symm⟩
    · rw [k.files_openFile_of_ne hFd] at hc
      exact .inr ⟨hFd, hc⟩
  constructor
  · intro fd' c hc
    show c < k.opened + 1
    rcases hOld fd' c hc with ⟨-, rfl⟩ | ⟨-, hc⟩
    · omega
    · have := h.numbered fd' c hc
      omega
  · intro fd' fd'' c hc hc'
    rcases hOld fd' c hc with ⟨rfl, rfl⟩ | ⟨-, hc⟩
    · rcases hOld fd'' _ hc' with ⟨rfl, -⟩ | ⟨-, hc'⟩
      · rfl
      · exact absurd (h.numbered fd'' _ hc') (Nat.lt_irrefl _)
    · rcases hOld fd'' c hc' with ⟨-, rfl⟩ | ⟨-, hc'⟩
      · exact absurd (h.numbered fd' _ hc) (Nat.lt_irrefl _)
      · exact h.injective fd' fd'' c hc hc'

theorem Distinct.closeFile (h : Distinct k) (fd : Int) : Distinct (k.closeFile fd) := by
  have hOld : ∀ fd' c, (k.closeFile fd).files fd' = some c → k.files fd' = some c := by
    intro fd' c hc
    by_cases hFd : fd' = fd
    · rw [hFd, k.files_closeFile_self] at hc
      cases hc
    · rwa [k.files_closeFile_of_ne hFd] at hc
  exact ⟨fun fd' c hc => h.numbered fd' c (hOld fd' c hc),
    fun fd' fd'' c hc hc' => h.injective fd' fd'' c (hOld fd' c hc) (hOld fd'' c hc')⟩

theorem Distinct.performAll (h : Distinct k) (out : List Effect) : Distinct (k.performAll out) := by
  induction out generalizing k with
  | nil => exact h
  | cons e out ih =>
      rw [performAll_cons]
      cases e with
      | close fd => exact ih (h.closeFile fd)
      | connect fd _ _ => exact ih (h.openFile fd)
      | epollAdd fd => exact ih (k := k.monitor fd true) ⟨h.numbered, h.injective⟩
      | epollDel fd => exact ih (k := k.monitor fd false) ⟨h.numbered, h.injective⟩
      | _ => exact ih h

theorem Distinct.accept {W : Type} {p : Process W} (h : Distinct p.kernel) (accepted : Accepted) :
    Distinct (p.accept accepted).kernel := by
  cases accepted with
  | refused => exact h
  | epollFails fd => exact (h.openFile fd).closeFile fd
  | added fd => exact ⟨(h.openFile fd).numbered, (h.openFile fd).injective⟩

/-- Effects that send no RESERVE. -/
theorem reservesOn_eq_zero {c : Nat} {out : List Effect}
    (h : ∀ fd line, Effect.send fd line ∈ out → ¬ IsReserve line) : reservesOn c k out = 0 := by
  rw [reservesOn, List.countP_eq_zero]
  rintro ⟨target, e⟩ hMem
  have hEffect := mem_of_mem_resolve hMem
  cases e with
  | send fd line =>
      cases target with
      | none => simp [isReserveOn]
      | some c' => simp [isReserveOn, h fd line hEffect]
  | _ => cases target <;> simp [isReserveOn]

/-- What `send_request` sends. -/
theorem reservesOn_send {c : Nat} {fd : Int} {line : Text} :
    reservesOn c k [.send fd line, .epollMod fd] =
      if k.files fd = some c ∧ IsReserve line then 1 else 0 := by
  have hMod : isReserveOn c (none, .epollMod fd) = false := rfl
  simp only [reservesOn, Kernel.resolve, Kernel.target, List.countP_cons, List.countP_nil, hMod]
  cases k.files fd with
  | none => simp [isReserveOn]
  | some c' => by_cases hSame : c' = c <;> simp [isReserveOn, hSame]

theorem reservesOn_arming {s' : ClientState} {out : List Effect} (h : Arming s' out) (c : Nat) :
    reservesOn c k out = 0 := by
  refine reservesOn_eq_zero fun fd line hSend => ?_
  cases h with
  | plain hPlain => exact hPlain _ hSend
  | dials hPlain _ =>
      rcases List.mem_append.mp hSend with hSend | hSend
      · exact hPlain _ hSend
      · simp at hSend

end

section

variable {W : Type} [DecidableEq W] {r : Reactor W} {c n : Nat}

/-- `c` is armed or reported for output. -/
def Pending (r : Reactor W) (c : Nat) : Prop :=
  ∃ fd, r.process.kernel.files fd = some c ∧
    ((r.process.kernel.monitored fd = true ∧ r.interest (.connection fd) = .output) ∨
      ∃ w, ⟨.connection fd, true⟩ ∈ r.events w)

/-- `n` RESERVE lines were sent on `c`. -/
structure Reserved (r : Reactor W) (c n : Nat) : Prop where
  distinct : Distinct r.process.kernel
  sole : ∀ fd, Sole r (.connection fd)
  numbered : n ≠ 0 → c < r.process.kernel.opened
  once : n ≤ 1
  pending : Pending r c → n = 0

/-- Nothing that a step registers is in the hands of a worker. -/
def Unshared (r : Reactor W) (e : ReactorEvent W) : Prop :=
  ∀ source ∈ registers r e, ∀ w, source ∉ r.held w

instance [Fintype W] (r : Reactor W) (e : ReactorEvent W) : Decidable (Unshared r e) :=
  inferInstanceAs (Decidable (∀ source ∈ registers r e, ∀ w, source ∉ r.held w))

omit [DecidableEq W] in
theorem reserved_start (capacity : Resource → Int) (c : Nat) :
    Reserved (Reactor.start (W := W) capacity) c 0 where
  distinct := ⟨fun _ _ hc => (nomatch hc), fun _ _ _ hc => (nomatch hc)⟩
  sole _ := sole_start capacity _
  numbered h := absurd rfl h
  once := Nat.zero_le _
  pending _ := rfl

omit [DecidableEq W] in
theorem mem_held {w : W} {fd : Int} {out : Bool} (h : ⟨.connection fd, out⟩ ∈ r.events w) :
    .connection fd ∈ r.held w :=
  List.mem_append_right _ (List.mem_map.mpr ⟨_, h, rfl⟩)

omit [DecidableEq W] in
/-- A step that sends no RESERVE, and arms no old connection for output. -/
theorem Reserved.quiet (h : Reserved r c n) {q : Reactor W} (hDistinct : Distinct q.process.kernel)
    (hSole : ∀ fd, Sole q (.connection fd))
    (hOpened : r.process.kernel.opened ≤ q.process.kernel.opened)
    (hPending : c < r.process.kernel.opened → Pending q c → Pending r c) : Reserved q c n where
  distinct := hDistinct
  sole := hSole
  numbered hn := Nat.lt_of_lt_of_le (h.numbered hn) hOpened
  once := h.once
  pending hq := by
    by_contra hn
    exact hn (h.pending (hPending (h.numbered hn) hq))

theorem Reserved.wait (h : Reserved r c n) {w : W} {ready : List Ready}
    (hSole : ∀ fd, Sole (reactorStep r (.wait w ready)) (.connection fd))
    (hReports : Reports r ready) : Reserved (reactorStep r (.wait w ready)) c n := by
  refine h.quiet h.distinct hSole (le_refl _) fun _ hPending => ?_
  obtain ⟨fd, hFile, hCase⟩ := hPending
  refine ⟨fd, hFile, ?_⟩
  rcases hCase with ⟨hMonitored, hArmed⟩ | ⟨w', he⟩
  · simp only [reactorStep] at hArmed
    split at hArmed
    · cases hArmed
    · exact .inl ⟨hMonitored, hArmed⟩
  · by_cases hw : w' = w
    · subst hw
      simp only [reactorStep, Function.update_self] at he
      obtain ⟨hMonitored, -, hOutput⟩ := hReports.2.2 _ he
      exact .inl ⟨hMonitored, hOutput rfl⟩
    · simp only [reactorStep, Function.update_of_ne hw] at he
      exact .inr ⟨w', he⟩

/-- **`send_request` sends one RESERVE**, and nothing is left that could cause another. -/
theorem Reserved.sends (h : Reserved r c n) {q : Reactor W} {w : W} {fd : Int} {line : Text}
    {rest : List Ready} (hEvents : r.events w = ⟨.connection fd, true⟩ :: rest)
    (hIdle : r.process.handler w = .idle) (hProcess : q.process = r.process)
    (hRest : q.events = Function.update r.events w rest)
    (hSole : ∀ fd, Sole q (.connection fd))
    (hInterest : q.interest =
      (({ r with events := Function.update r.events w rest } : Reactor W).rearm
        (.connection fd)).interest) :
    Reserved q c (n + reservesOn c r.process.kernel [.send fd line, .epollMod fd]) := by
  have hHead : ⟨.connection fd, true⟩ ∈ r.events w := hEvents ▸ List.mem_cons_self
  have hSubset : ∀ {w' : W} {e : Ready}, e ∈ q.events w' → e ∈ r.events w' := by
    intro w' e he
    rw [hRest] at he
    by_cases hw : w' = w
    · subst hw
      rw [Function.update_self] at he
      rw [hEvents]
      exact List.mem_cons_of_mem _ he
    · rwa [Function.update_of_ne hw] at he
  by_cases hFile : r.process.kernel.files fd = some c
  · have hNone : n = 0 := h.pending ⟨fd, hFile, .inr ⟨w, hHead⟩⟩
    have hOne : reservesOn c r.process.kernel [.send fd line, .epollMod fd] ≤ 1 := by
      rw [reservesOn_send]
      split <;> omega
    refine ⟨hProcess ▸ h.distinct, hSole, fun _ => ?_, by omega, fun hPending => ?_⟩
    · rw [hProcess]
      exact h.distinct.numbered fd c hFile
    · -- it is armed for input now, and was in no other array
      obtain ⟨fd', hFile', hCase⟩ := hPending
      rw [hProcess] at hFile' hCase
      obtain rfl := h.distinct.injective fd fd' c hFile hFile'
      exfalso
      rcases hCase with ⟨hMonitored, hArmed⟩ | ⟨w', he⟩
      · have hInput : q.interest (.connection fd) = .input := by
          rw [hInterest]
          exact interest_rearm_self hMonitored
        rw [hInput] at hArmed
        cases hArmed
      · have hHeldBefore : r.held w = .connection fd :: rest.map Ready.source :=
          held_of_events hIdle hEvents
        refine (h.sole fd).dropped hHeldBefore ?_ (fun w'' hw => ?_) w' (mem_held he)
        · rw [held, hProcess, hIdle, hRest, Function.update_self]
          rfl
        · rw [held, hProcess, hRest, Function.update_of_ne hw]
          rfl
  · rw [reservesOn_send, if_neg fun hBoth => hFile hBoth.1, Nat.add_zero]
    refine h.quiet (hProcess ▸ h.distinct) hSole (le_of_eq (by rw [hProcess])) fun _ hPending => ?_
    obtain ⟨fd', hFile', hCase⟩ := hPending
    rw [hProcess] at hFile' hCase
    have hNe : fd' ≠ fd := by
      rintro rfl
      exact hFile hFile'
    refine ⟨fd', hFile', hCase.imp (fun hArmed => ⟨hArmed.1, ?_⟩) fun ⟨w', he⟩ => ⟨w', hSubset he⟩⟩
    rw [← hArmed.2, hInterest, interest_rearm_of_ne]
    simpa using hNe

theorem Reserved.next (h : Reserved r c n) {w : W} {readFails : Bool} {now : Int}
    (hIdle : r.process.handler w = .idle)
    (hSole : ∀ fd, Sole (reactorStep r (.next w readFails now)) (.connection fd)) :
    Reserved (reactorStep r (.next w readFails now)) c
      (n + reservesOn c r.process.kernel (reactorEffects r (.next w readFails now))) := by
  cases hEvents : r.events w with
  | nil =>
      simp only [reactorStep, reactorEffects, hEvents]
      exact h
  | cons e rest =>
      simp only [reactorStep, hEvents] at hSole ⊢
      obtain ⟨source, out⟩ := e
      set p : Reactor W := { r with events := Function.update r.events w rest } with hp
      have hSubset : ∀ {w' : W} {e : Ready}, e ∈ p.events w' → e ∈ r.events w' := by
        intro w' e he
        by_cases hw : w' = w
        · subst hw
          simp only [hp, Function.update_self] at he
          rw [hEvents]
          exact List.mem_cons_of_mem _ he
        · simpa only [hp, Function.update_of_ne hw] using he
      -- nothing is sent, and nothing is armed for output
      have hQuiet : ∀ q : Reactor W, (∀ fd, Sole q (.connection fd)) →
          q.process.kernel = r.process.kernel → q.events = p.events →
          (∀ fd, q.interest (.connection fd) = r.interest (.connection fd)) →
          Reserved q c (n + 0) := by
        intro q hAlone hKernel hRest hInterest
        refine h.quiet (hKernel ▸ h.distinct) hAlone (le_of_eq (by rw [hKernel]))
          fun _ hPending => ?_
        obtain ⟨fd, hFile, hCase⟩ := hPending
        rw [hKernel] at hFile hCase
        rw [hInterest] at hCase
        exact ⟨fd, hFile, hCase.imp id fun ⟨w', he⟩ => ⟨w', hSubset (hRest ▸ he)⟩⟩
      cases source with
      | broadcastTimer =>
          simp only [reactorEffects, hEvents]
          cases readFails with
          | true => exact hQuiet p hSole rfl rfl fun _ => rfl
          | false => exact hQuiet (p.arm .broadcastTimer .input) hSole rfl rfl fun fd =>
              interest_arm_of_ne (by simp)
      | timeoutTimer =>
          simp only [reactorEffects, hEvents]
          cases readFails with
          | true => exact hQuiet p hSole rfl rfl fun _ => rfl
          | false =>
              have hEq : p.dispatch w false now ⟨.timeoutTimer, out⟩ =
                  { p with channel := channelStep p.channel (.loop (.tick w now)) } := act_eq rfl
              rw [hEq] at hSole ⊢
              exact hQuiet _ hSole rfl rfl fun _ => rfl
      | connection fd =>
          simp only [reactorEffects, hEvents]
          cases dispatched p w readFails now fd out with
          | reads next _ hEffects hEq =>
              rw [hEq] at hSole ⊢
              have hNone : stepEffects r.process
                  (if out then .writable w fd else .readable w fd) = [] := hEffects
              rw [hNone]
              exact hQuiet _ hSole rfl rfl fun _ => rfl
          | sends line hOut hEffects hEq =>
              rw [hEq] at hSole ⊢
              subst hOut
              have hSent : stepEffects r.process (.writable w fd) =
                  [.send fd line, .epollMod fd] := hEffects
              simp only [if_true, hSent]
              refine h.sends hEvents hIdle ?_ (rearm_events _) hSole rfl
              rw [Reactor.process, rearm_channel]
          | skips hOut _ hEffects hEq =>
              rw [hEq] at hSole ⊢
              subst hOut
              have hNone : stepEffects r.process (.writable w fd) = [] := hEffects
              simp only [if_true, hNone]
              exact hQuiet p hSole rfl rfl fun _ => rfl

omit [DecidableEq W] in
/-- A connection that is accepted is armed for input, and in no array. -/
theorem Reserved.accept (h : Reserved r c n) {q : Reactor W} {accepted : Accepted}
    (hProcess : q.process = r.process.accept accepted) (hInterest : q.interest = r.interest)
    (hEvents : q.events = r.events) (hSole : ∀ fd, Sole (q.added accepted) (.connection fd)) :
    Reserved (q.added accepted) c n := by
  have hKernel : (q.added accepted).process.kernel = (r.process.accept accepted).kernel := by
    rw [Reactor.process, added_channel, ← Reactor.process, hProcess]
  have hOpened : r.process.kernel.opened ≤ (r.process.accept accepted).kernel.opened := by
    cases accepted with
    | refused => exact le_refl _
    | epollFails fd => exact Nat.le_succ _
    | added fd => exact Nat.le_succ _
  refine h.quiet (hKernel ▸ h.distinct.accept accepted) hSole (hKernel ▸ hOpened)
    fun hOld hPending => ?_
  obtain ⟨fd, hFile, hCase⟩ := hPending
  rw [hKernel] at hFile hCase
  rw [added_events, hEvents] at hCase
  cases accepted with
  | refused =>
      refine ⟨fd, hFile, ?_⟩
      rw [← hInterest]
      exact hCase
  | epollFails fd' =>
      have hNe : fd ≠ fd' := by
        rintro rfl
        simp [Process.accept, Kernel.closeFile] at hFile
      simp only [Process.accept, Kernel.closeFile, Kernel.openFile,
        Function.update_of_ne hNe] at hFile hCase
      refine ⟨fd, hFile, ?_⟩
      rw [← hInterest]
      exact hCase
  | added fd' =>
      have hNe : fd ≠ fd' := by
        rintro rfl
        have hNew : r.process.kernel.opened = c := by
          simpa [Process.accept, Kernel.monitor] using hFile
        omega
      have hSame : (q.added (.added fd')).interest (.connection fd) = q.interest (.connection fd) :=
        interest_arm_of_ne (by simpa using hNe)
      simp only [Process.accept, Kernel.monitor, Kernel.openFile,
        Function.update_of_ne hNe] at hFile hCase
      rw [hSame] at hCase
      refine ⟨fd, hFile, ?_⟩
      rw [← hInterest]
      exact hCase

theorem Reserved.turn (h : Reserved r c n) {w : W} {env : Env}
    (hSole : ∀ fd, Sole (reactorStep r (.turn w env)) (.connection fd)) :
    Reserved (reactorStep r (.turn w env)) c n := by
  have hKernel : (reactorStep r (.turn w env)).process.kernel =
      r.process.kernel.performAll (turnEffects r.process w env) := by
    have hTurn : (r.act (.turn w env)).process.kernel =
        r.process.kernel.performAll (turnEffects r.process w env) := by
      rw [act_process]
      exact (turn_spec r.process w env).2.1
    simp only [reactorStep]
    split
    · rw [Reactor.process, rearm_channel]
      exact hTurn
    · exact hTurn
  have hEvents : (reactorStep r (.turn w env)).events = r.events := by
    simp only [reactorStep]
    split
    · rw [rearm_events, act_events]
    · rw [act_events]
  have hOutput : ∀ fd, (reactorStep r (.turn w env)).interest (.connection fd) = .output →
      (r.act (.turn w env)).interest (.connection fd) = .output := by
    intro fd hArmed
    simp only [reactorStep] at hArmed
    split at hArmed
    · rename_i source _
      by_cases hSame : .connection fd = source
      · subst hSame
        rw [rearm] at hArmed
        split at hArmed
        · rw [interest_arm_self] at hArmed
          cases hArmed
        · exact hArmed
      · rwa [interest_rearm_of_ne hSame] at hArmed
    · exact hArmed
  refine h.quiet (hKernel ▸ h.distinct.performAll _) hSole
    (hKernel ▸ opened_le_performAll _ _) fun hOld hPending => ?_
  obtain ⟨fd, hFile, hCase⟩ := hPending
  rw [hKernel] at hFile hCase
  rw [hEvents] at hCase
  have hBefore := files_of_performAll hOld hFile
  -- what is dialed gets a new number
  have hAdd : .epollAdd fd ∉ turnEffects r.process w env := by
    intro hAdd
    have hArming := arming_turn r.process w env
    generalize turnEffects r.process w env = out at hAdd hArming hFile
    cases hArming with
    | plain hPlain => exact hPlain _ hAdd
    | @dials pre fd' jobId req hPlain _ =>
        have hFd : fd = fd' := by
          rcases List.mem_append.mp hAdd with hAdd | hAdd
          · exact (hPlain _ hAdd).elim
          · simpa using hAdd
        subst hFd
        rw [performAll_append] at hFile
        have hNew : (r.process.kernel.performAll pre).opened = c := by
          simpa [Kernel.perform, Kernel.monitor] using hFile
        have := opened_le_performAll r.process.kernel pre
        omega
  refine ⟨fd, hBefore, hCase.imp (fun hArmed => ⟨?_, ?_⟩) id⟩
  · exact ((monitored_performAll hArmed.1).resolve_right hAdd).1
  · have hTurned := hOutput fd hArmed.2
    rcases @interest_performAll _
      { r with channel := channelStep r.channel (.loop (.turn w env)) } (.connection fd)
      (turnEffects r.process w env) with hSame | ⟨fd', hSource, ⟨hMem, -⟩ | ⟨hMod, -⟩⟩
    · exact hSame.symm.trans hTurned
    · cases hSource
      exact absurd hMem hAdd
    · exact absurd hMod ((arming_turn r.process w env).not_mod fd')

theorem Reserved.step (h : Reserved r c n) {e : ReactorEvent W} (hPossible : Possible r e)
    (hUnshared : Unshared r e) :
    Reserved (reactorStep r e) c (n + reservesOn c r.process.kernel (reactorEffects r e)) := by
  have hSole : ∀ fd, Sole (reactorStep r e) (.connection fd) :=
    fun fd => (h.sole fd).step hPossible (hUnshared _)
  cases e with
  | wait w ready => exact h.wait hSole hPossible.2.2.2
  | next w readFails now => exact h.next hPossible.2 hSole
  | accept w accepted => exact h.accept rfl rfl rfl hSole
  | assign w =>
      have hKernel : (reactorStep r (.assign w)).process.kernel = r.process.kernel := by
        simp only [reactorStep, Reactor.process, channelStep]
        cases r.channel.assigning w <;> rfl
      refine h.quiet (hKernel ▸ h.distinct) hSole (le_of_eq (by rw [hKernel])) fun _ hPending => ?_
      obtain ⟨fd, hFile, hCase⟩ := hPending
      rw [hKernel] at hFile hCase
      exact ⟨fd, hFile, hCase⟩
  | connectClient w accepted =>
      simp only [reactorStep,
        act_eq (rfl : stepEffects r.process (.connectClient w accepted) = [])] at hSole ⊢
      exact h.accept rfl rfl rfl hSole
  | turn w env =>
      have hNone : reservesOn c r.process.kernel (reactorEffects r (.turn w env)) = 0 :=
        reservesOn_arming (arming_turn r.process w env) c
      rw [hNone]
      exact h.turn hSole

/-- **A connection is sent at most one RESERVE**, in every run in which no descriptor is
given to a new connection while a worker has it in hand. -/
theorem one_reserve {capacity : Resource → Int} {es : List (ReactorEvent W)}
    (hPossible : Meets reactorStep Possible (start capacity) es)
    (hUnshared : Meets reactorStep Unshared (start capacity) es) (c : Nat) :
    reserves c (start capacity) es ≤ 1 := by
  have hReserved := run_invariant_history
    (fun es r => r = run reactorStep (start capacity) es ∧
      Reserved r c (reserves c (start capacity) es))
    (fun es r e h hOk => by
      obtain ⟨rfl, h⟩ := h
      rw [run_snoc, reserves, spent_snoc]
      exact ⟨rfl, h.step hOk.1 hOk.2⟩)
    ⟨rfl, reserved_start capacity c⟩ (hPossible.and hUnshared)
  exact hReserved.2.once

end

/-- Job 1001 asks for a cpu on descriptor 5, and is granted it; one worker has both connections
reported at once. -/
def askedOnce : List (ReactorEvent Bool) :=
  [.accept false (.added 4), .assign false, .wait false [⟨.connection 4, false⟩],
    .next false false 0,
    .turn false (arrival (.data "JOB_REQUEST 1001 @10.0.0.1:cpu:1\n".toList) (.connected 5)),
    .turn false (arrival .again .noSocket),
    .wait false [⟨.connection 4, false⟩, ⟨.connection 5, true⟩],
    .next false false 0, .turn false (arrival .again .noSocket), .next false false 0,
    .wait true [⟨.connection 5, false⟩], .next true false 0,
    .turn true (arrival (.data "GRANTED 1001\n".toList) .noSocket),
    .turn true (arrival .again .noSocket)]

theorem one_reserve_askedOnce :
    0 < reserves 1 (start fun _ => 0) askedOnce ∧ reserves 1 (start fun _ => 0) askedOnce ≤ 1 := by
  have hPossible : Meets reactorStep Possible (start fun _ => 0) askedOnce := by decide +kernel
  have hUnshared : Meets reactorStep Unshared (start fun _ => 0) askedOnce := by decide +kernel
  exact ⟨by decide +kernel, one_reserve hPossible hUnshared 1⟩

end ResourceAgent.Ports.SoleService
