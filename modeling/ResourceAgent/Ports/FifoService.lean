import Mathlib.Data.List.Nodup
import ResourceAgent.Ports.Workers

/-!
# First come, first served

What the log of `Workers.lean` says about the requests.  Every call of
`enqueue_jobs` queues its request once, requests leave a queue in the order
they entered it, and each request that left was recorded once and then answered
once.  The log is no free invention: the requests queued are those of the calls
(`Called`), and the pools and `table_nodejobs` are at any time what the log
makes of them (`Booked`).
-/

namespace ResourceAgent.Ports.FifoService

open ResourceAgent.Ports.HashTable
open ResourceAgent.Ports.Records
open ResourceAgent.Ports.Wire
open ResourceAgent.Ports.Reservation
open ResourceAgent.Ports.Workers
open ResourceAgent.Verified.CText
open ResourceAgent.Verified.Runs

/-! ## The log -/

/-- The requests that entered the queues, with their queue. -/
def enqueuedAll (log : List Logged) : List (Resource × Request) :=
  log.filterMap fun
    | .enqueued r req => some (r, req)
    | _ => none

/-- The requests that left the queues, with their queue. -/
def dequeuedAll (log : List Logged) : List (Resource × Request) :=
  log.filterMap fun
    | .dequeued r req => some (r, req)
    | _ => none

/-- The requests of one queue in a list of requests. -/
def ofQueue (r : Resource) (l : List (Resource × Request)) : List Request :=
  l.filterMap fun p => if p.1 = r then some p.2 else none

/-- The `record_granted` calls made for the node `addr`. -/
def recordings (addr : Nat) (log : List Logged) : List Logged :=
  log.filter fun
    | .recorded a _ _ _ _ _ => a == addr
    | _ => false

/-- The lines sent for the node `addr`. -/
def answers (addr : Nat) (log : List Logged) : List Logged :=
  log.filter fun
    | .sent a _ _ => a == addr
    | _ => false

/-- `a` is in the log with `b` after it. -/
def Before (a b : Logged) (log : List Logged) : Prop :=
  ∃ l₁ l₂ l₃, log = l₁ ++ a :: l₂ ++ b :: l₃

/-- The recording a request must cause, whatever the record it inserts. -/
def recordingOf (p : Resource × Request) (rj : ReceivedJob) : Logged :=
  .recorded p.2.addr p.2.jobId p.2.originSocket p.1 p.2.amountRequested rj

/-- The line a request must cause. -/
def answerOf (p : Resource × Request) : Logged :=
  .sent p.2.addr p.2.originSocket (grantedLine p.2.jobId)

section

variable (log l : List Logged) (a : Nat)

@[simp] theorem enqueuedAll_append :
    enqueuedAll (log ++ l) = enqueuedAll log ++ enqueuedAll l := by simp [enqueuedAll]

@[simp] theorem dequeuedAll_append :
    dequeuedAll (log ++ l) = dequeuedAll log ++ dequeuedAll l := by simp [dequeuedAll]

@[simp] theorem recordings_append :
    recordings a (log ++ l) = recordings a log ++ recordings a l := by simp [recordings]

@[simp] theorem answers_append :
    answers a (log ++ l) = answers a log ++ answers a l := by simp [answers]

end

@[simp] theorem ofQueue_append (r : Resource) (l l' : List (Resource × Request)) :
    ofQueue r (l ++ l') = ofQueue r l ++ ofQueue r l' := by simp [ofQueue]

/-- The log entries of one drain, projected. -/
theorem dequeued_entries (r : Resource) (served : List Request) :
    enqueuedAll (served.map fun req => Logged.dequeued r req) = [] ∧
      dequeuedAll (served.map fun req => Logged.dequeued r req) =
        served.map (fun req => (r, req)) := by
  constructor <;> induction served <;> simp_all [enqueuedAll, dequeuedAll]

theorem ofQueue_map (r r' : Resource) (served : List Request) :
    ofQueue r' (served.map fun req => (r, req)) = if r = r' then served else [] := by
  induction served with
  | nil => simp [ofQueue]
  | cons req served ih =>
      have hCons : ofQueue r' ((req :: served).map fun req => (r, req)) =
          (if r = r' then [req] else []) ++ ofQueue r' (served.map fun req => (r, req)) := by
        by_cases hr : r = r' <;> simp [ofQueue, hr]
      rw [hCons, ih]
      by_cases hr : r = r' <;> simp [hr]

/-! ## One life per request

The log entries of one node, in order, are a beginning of `lifecycle`: what is
still missing tells where the request is. -/

/-- The node a log entry is about. -/
def nodeOf : Logged → Option Nat
  | .enqueued _ req => some req.addr
  | .dequeued _ req => some req.addr
  | .recorded addr _ _ _ _ _ => some addr
  | .sent addr _ _ => some addr
  | .unlinked _ => none
  | .credited _ _ => none

/-- What happened to the node `a`, in order. -/
def life (a : Nat) (log : List Logged) : List Logged :=
  log.filter fun x => nodeOf x == some a

/-- Everything that happens to a request, in order. -/
def lifecycle (p : Resource × Request) (rj : ReceivedJob) : List Logged :=
  [.enqueued p.1 p.2, .dequeued p.1 p.2, recordingOf p rj, answerOf p]

@[simp] theorem life_append (a : Nat) (log l : List Logged) :
    life a (log ++ l) = life a log ++ life a l := by simp [life]

theorem life_eq_nil {a : Nat} {l : List Logged} (h : ∀ x ∈ l, nodeOf x ≠ some a) :
    life a l = [] := by
  simpa [life] using h

theorem mem_life {a : Nat} {log : List Logged} {x : Logged} :
    x ∈ life a log ↔ x ∈ log ∧ nodeOf x = some a := by simp [life]

theorem life_concat_self {a : Nat} {x : Logged} (log : List Logged) (h : nodeOf x = some a) :
    life a (log ++ [x]) = life a log ++ [x] := by simp [life, h]

/-- The first `k` things in the life of `p` have happened, and no more. -/
def Lived (k : Nat) (p : Resource × Request) (log : List Logged) : Prop :=
  ∃ rj, life p.2.addr log = (lifecycle p rj).take k

theorem Lived.length {k : Nat} {p : Resource × Request} {log : List Logged} (h : Lived k p log) :
    (life p.2.addr log).length = min k 4 := by
  obtain ⟨rj, h⟩ := h
  rw [h, List.length_take]
  rfl

/-- Entries about other nodes do not age a request. -/
theorem Lived.append {k : Nat} {p : Resource × Request} {log l : List Logged} (h : Lived k p log)
    (hOther : ∀ x ∈ l, nodeOf x ≠ some p.2.addr) : Lived k p (log ++ l) := by
  rwa [Lived, life_append, life_eq_nil hOther, List.append_nil]

theorem Lived.concat {k : Nat} {p : Resource × Request} {log : List Logged} {x : Logged}
    (h : Lived k p log) (hOther : nodeOf x ≠ some p.2.addr) : Lived k p (log ++ [x]) :=
  h.append (by simpa using hOther)

theorem lived_one {p : Resource × Request} {log : List Logged} :
    Lived 1 p log ↔ life p.2.addr log = [.enqueued p.1 p.2] := by
  constructor
  · rintro ⟨rj, h⟩
    exact h
  · exact fun h => ⟨grantKey none 0, h⟩

theorem lived_two {p : Resource × Request} {log : List Logged} :
    Lived 2 p log ↔ life p.2.addr log = [.enqueued p.1 p.2, .dequeued p.1 p.2] := by
  constructor
  · rintro ⟨rj, h⟩
    exact h
  · exact fun h => ⟨grantKey none 0, h⟩

/-- A drain logs one entry for each node it takes. -/
theorem life_dequeued {r : Resource} {served : List Request} {req : Request}
    (hNodup : (served.map fun req => req.addr).Nodup) (hMem : req ∈ served) :
    life req.addr (served.map fun req => Logged.dequeued r req) = [.dequeued r req] := by
  induction served with
  | nil => simp at hMem
  | cons x served ih =>
      simp only [List.map_cons, List.nodup_cons, List.mem_map, not_exists, not_and] at hNodup
      rw [List.map_cons, ← List.singleton_append, life_append]
      rcases List.mem_cons.mp hMem with rfl | hMem
      · rw [life_eq_nil (l := served.map _) (by simpa [nodeOf] using hNodup.1)]
        simp [life, nodeOf]
      · rw [ih hNodup.2 hMem, life_eq_nil, List.nil_append]
        simpa [nodeOf] using fun h => hNodup.1 req hMem h.symm

theorem mem_enqueuedAll {log : List Logged} {p : Resource × Request} :
    p ∈ enqueuedAll log ↔ .enqueued p.1 p.2 ∈ log := by
  simp only [enqueuedAll, List.mem_filterMap]
  constructor
  · rintro ⟨x, hx, hp⟩
    cases x <;> simp at hp
    subst hp
    exact hx
  · exact fun h => ⟨_, h, rfl⟩

theorem mem_dequeuedAll {log : List Logged} {p : Resource × Request} :
    p ∈ dequeuedAll log ↔ .dequeued p.1 p.2 ∈ log := by
  simp only [dequeuedAll, List.mem_filterMap]
  constructor
  · rintro ⟨x, hx, hp⟩
    cases x <;> simp at hp
    subst hp
    exact hx
  · exact fun h => ⟨_, h, rfl⟩

/-- A request that has lived its life was recorded once and then answered once. -/
theorem served_of_life {p : Resource × Request} {log : List Logged} (h : Lived 4 p log) :
    ∃ rj, recordings p.2.addr log = [recordingOf p rj] ∧ answers p.2.addr log = [answerOf p] ∧
      Before (recordingOf p rj) (answerOf p) log := by
  obtain ⟨rj, h⟩ := h
  rw [List.take_of_length_le (by simp [lifecycle])] at h
  refine ⟨rj, ?_⟩
  have hRec : recordings p.2.addr log = recordings p.2.addr (life p.2.addr log) := by
    simp only [recordings, life, List.filter_filter]
    refine List.filter_congr fun x _ => ?_
    cases x <;> simp [nodeOf]
  have hAns : answers p.2.addr log = answers p.2.addr (life p.2.addr log) := by
    simp only [answers, life, List.filter_filter]
    refine List.filter_congr fun x _ => ?_
    cases x <;> simp [nodeOf]
  refine ⟨?_, ?_, ?_⟩
  · rw [hRec, h]
    simp [recordings, lifecycle, recordingOf, answerOf]
  · rw [hAns, h]
    simp [answers, lifecycle, recordingOf, answerOf]
  · rw [life, lifecycle, List.filter_eq_cons_iff] at h
    obtain ⟨l₁, log₁, rfl, -, -, h⟩ := h
    obtain ⟨l₂, log₂, rfl, -, -, h⟩ := List.filter_eq_cons_iff.mp h
    obtain ⟨l₃, log₃, rfl, -, -, h⟩ := List.filter_eq_cons_iff.mp h
    obtain ⟨l₄, log₄, rfl, -, -, -⟩ := List.filter_eq_cons_iff.mp h
    exact ⟨l₁ ++ .enqueued p.1 p.2 :: l₂ ++ .dequeued p.1 p.2 :: l₃, l₄, log₄, by simp⟩

/-! ## Accounting for every request -/

/-- The requests in a worker's hands: allocated and not yet queued, dequeued and
not yet recorded, recorded and not yet answered. -/
structure View where
  entering : List (Resource × Request)
  stash : List (Resource × Request)
  answering : List (Resource × Request)

def View.carried (v : View) : List (Resource × Request) :=
  v.entering ++ v.stash ++ v.answering

def viewOf : Worker → View
  | .enqueue r req => ⟨[(r, req)], [], []⟩
  | .serve r ready => ⟨[], ready.map fun req => (r, req), []⟩
  | .insert r req _ ready => ⟨[], (req :: ready).map fun req => (r, req), []⟩
  | .answer r req ready => ⟨[], ready.map fun req => (r, req), [(r, req)]⟩
  | _ => ⟨[], [], []⟩

/-- Queues and log agree, and every node's life is as far as the place where
its request is.  `brk` is the next address, `queue` the queues' contents. -/
structure Accounted {W : Type} (brk : Nat) (queue : Resource → List Request) (view : W → View)
    (log : List Logged) : Prop where
  fifo : ∀ r, ofQueue r (dequeuedAll log) ++ queue r = ofQueue r (enqueuedAll log)
  distinct : ((enqueuedAll log).map fun p => p.2.addr).Nodup
  fresh : ∀ a, brk ≤ a → life a log = []
  entering : ∀ w, ∀ p ∈ (view w).entering, p.2.addr < brk ∧ life p.2.addr log = []
  queued : ∀ r, ∀ req ∈ queue r, Lived 1 (r, req) log
  stashed : ∀ w, ∀ p ∈ (view w).stash, Lived 2 p log
  answering : ∀ w, ∀ p ∈ (view w).answering, Lived 3 p log
  served : ∀ p ∈ dequeuedAll log,
    (∃ w, p ∈ (view w).stash ++ (view w).answering) ∨ Lived 4 p log
  stash_nodup : ∀ w, ((view w).stash.map fun p => p.2.addr).Nodup
  apart : ∀ w w', w ≠ w' → ∀ p ∈ (view w).carried, ∀ q ∈ (view w').carried,
    p.2.addr ≠ q.2.addr

theorem life_ne_nil_of_dequeued {log : List Logged} {p : Resource × Request}
    (h : p ∈ dequeuedAll log) : life p.2.addr log ≠ [] :=
  List.ne_nil_of_mem (mem_life.mpr ⟨mem_dequeuedAll.mp h, rfl⟩)

theorem life_ne_nil_of_enqueued {log : List Logged} {p : Resource × Request}
    (h : p ∈ enqueuedAll log) : life p.2.addr log ≠ [] :=
  List.ne_nil_of_mem (mem_life.mpr ⟨mem_enqueuedAll.mp h, rfl⟩)

section

variable {W : Type} [DecidableEq W] {brk : Nat} {queue : Resource → List Request}
  {view : W → View} {log : List Logged}

omit [DecidableEq W] in
/-- Nodes in a queue have different addresses. -/
theorem Accounted.queue_nodup (h : Accounted brk queue view log) (r : Resource) :
    ((queue r).map fun req => req.addr).Nodup := by
  have hAll : ((ofQueue r (enqueuedAll log)).map fun req => req.addr).Nodup := by
    refine h.distinct.sublist ?_
    generalize enqueuedAll log = l
    induction l with
    | nil => simp [ofQueue]
    | cons p l ih =>
        by_cases hr : p.1 = r
        · simpa [ofQueue, hr] using ih
        · simpa [ofQueue, hr] using ih.cons _
  rw [← h.fifo r, List.map_append] at hAll
  exact (List.nodup_append.mp hAll).2.1

/-- Replacing a worker's view by a part of it keeps the workers apart. -/
theorem apart_update (hApart : ∀ w w', w ≠ w' → ∀ p ∈ (view w).carried,
      ∀ q ∈ (view w').carried, p.2.addr ≠ q.2.addr) {w : W} {v : View}
    (hNew : ∀ p ∈ v.carried, ∀ w' ≠ w, ∀ q ∈ (view w').carried, p.2.addr ≠ q.2.addr) :
    ∀ w₁ w₂, w₁ ≠ w₂ → ∀ p ∈ (Function.update view w v w₁).carried,
      ∀ q ∈ (Function.update view w v w₂).carried, p.2.addr ≠ q.2.addr := by
  intro w₁ w₂ hNe p hp q hq
  by_cases h₁ : w₁ = w
  · subst h₁
    rw [Function.update_self] at hp
    rw [Function.update_of_ne (Ne.symm hNe)] at hq
    exact hNew p hp w₂ (Ne.symm hNe) q hq
  · rw [Function.update_of_ne h₁] at hp
    by_cases h₂ : w₂ = w
    · subst h₂
      rw [Function.update_self] at hq
      exact Ne.symm (hNew q hq w₁ h₁ p hp)
    · rw [Function.update_of_ne h₂] at hq
      exact hApart w₁ w₂ hNe p hp q hq

/-- What holds of every view holds after one of them is replaced, if it holds
of the new one. -/
theorem forall_view_update {P : View → Prop} {w : W} {v : View} (hNew : P v)
    (hOld : ∀ w' ≠ w, P (view w')) (w₁ : W) : P (Function.update view w v w₁) := by
  by_cases h : w₁ = w
  · subst h
    rwa [Function.update_self]
  · rw [Function.update_of_ne h]
    exact hOld w₁ h

/-- A step that logs entries about none of the nodes other workers carry, and
gives the worker `w` the view `v`. -/
structure Advance (brk : Nat) (view : W → View) (log l : List Logged) (w : W) (v : View) :
    Prop where
  fresh : ∀ x ∈ l, ∀ a, nodeOf x = some a → life a log ≠ [] ∨ a < brk
  others : ∀ w' ≠ w, ∀ q ∈ (view w').carried, ∀ x ∈ l, nodeOf x ≠ some q.2.addr
  entering : ∀ p ∈ v.entering, p.2.addr < brk ∧ life p.2.addr (log ++ l) = []
  stashed : ∀ p ∈ v.stash, Lived 2 p (log ++ l)
  answering : ∀ p ∈ v.answering, Lived 3 p (log ++ l)
  stash_nodup : (v.stash.map fun p => p.2.addr).Nodup
  apart : ∀ p ∈ v.carried, ∀ w' ≠ w, ∀ q ∈ (view w').carried, p.2.addr ≠ q.2.addr

/-- What such a step leaves to show is about the queues and the whole log. -/
theorem Accounted.advance (h : Accounted brk queue view log) {l : List Logged} {w : W} {v : View}
    (hAdv : Advance brk view log l w v) {queue' : Resource → List Request}
    (hFifo : ∀ r, ofQueue r (dequeuedAll (log ++ l)) ++ queue' r =
      ofQueue r (enqueuedAll (log ++ l)))
    (hDistinct : ((enqueuedAll (log ++ l)).map fun p => p.2.addr).Nodup)
    (hQueued : ∀ r, ∀ req ∈ queue' r, Lived 1 (r, req) (log ++ l))
    (hServed : ∀ p ∈ dequeuedAll (log ++ l),
      p ∈ v.stash ++ v.answering ∨ (∃ w' ≠ w, p ∈ (view w').stash ++ (view w').answering) ∨
        Lived 4 p (log ++ l)) :
    Accounted brk queue' (Function.update view w v) (log ++ l) := by
  have hOther : ∀ w' ≠ w, ∀ q ∈ (view w').carried,
      life q.2.addr (log ++ l) = life q.2.addr log := by
    intro w' hw' q hq
    rw [life_append, life_eq_nil (l := l) (hAdv.others w' hw' q hq), List.append_nil]
  refine ⟨hFifo, hDistinct, ?_, fun w₁ => ?_, hQueued, fun w₁ => ?_, fun w₁ => ?_, ?_,
    fun w₁ => ?_, apart_update h.apart hAdv.apart⟩
  · intro a ha
    rw [life_append, h.fresh a ha, List.nil_append, life_eq_nil]
    intro x hx hNode
    rcases hAdv.fresh x hx a hNode with hLife | hLt
    · exact hLife (h.fresh a ha)
    · omega
  · refine forall_view_update
      (P := fun v => ∀ p ∈ v.entering, p.2.addr < brk ∧ life p.2.addr (log ++ l) = [])
      hAdv.entering (fun w' hw' p hp => ?_) w₁
    rw [hOther w' hw' p (by simp [View.carried, hp])]
    exact h.entering w' p hp
  · refine forall_view_update
      (P := fun v => ∀ p ∈ v.stash, Lived 2 p (log ++ l))
      hAdv.stashed (fun w' hw' p hp => ?_) w₁
    exact (h.stashed w' p hp).append (hAdv.others w' hw' p (by simp [View.carried, hp]))
  · refine forall_view_update
      (P := fun v => ∀ p ∈ v.answering, Lived 3 p (log ++ l))
      hAdv.answering (fun w' hw' p hp => ?_) w₁
    exact (h.answering w' p hp).append (hAdv.others w' hw' p (by simp [View.carried, hp]))
  · intro p hp
    rcases hServed p hp with hNew | ⟨w', hw', hOld⟩ | hDone
    · exact .inl ⟨w, by rwa [Function.update_self]⟩
    · exact .inl ⟨w', by rwa [Function.update_of_ne hw']⟩
    · exact .inr hDone
  · exact forall_view_update (P := fun v => (v.stash.map fun p => p.2.addr).Nodup)
      hAdv.stash_nodup (fun w' _ => h.stash_nodup w') w₁

omit [DecidableEq W] in
/-- A dequeued request the worker `w` does not hold is accounted for elsewhere. -/
theorem Accounted.served_elsewhere (h : Accounted brk queue view log) {l : List Logged} {w : W}
    {p : Resource × Request} (hp : p ∈ dequeuedAll log)
    (hNot : p ∉ (view w).stash ++ (view w).answering)
    (hLife : ∀ x ∈ l, nodeOf x ≠ some p.2.addr) :
    (∃ w' ≠ w, p ∈ (view w').stash ++ (view w').answering) ∨ Lived 4 p (log ++ l) := by
  rcases h.served p hp with ⟨w', hw'⟩ | hDone
  · refine .inl ⟨w', ?_, hw'⟩
    rintro rfl
    exact hNot hw'
  · exact .inr (hDone.append hLife)

omit [DecidableEq W] in
/-- A request in a queue has been queued, and nothing else. -/
theorem Accounted.life_queued (h : Accounted brk queue view log) {r : Resource} {req : Request}
    (hReq : req ∈ queue r) : life req.addr log = [.enqueued r req] :=
  lived_one.mp (h.queued r req hReq)

omit [DecidableEq W] in
theorem Accounted.queued_inj (h : Accounted brk queue view log) {r r' : Resource}
    {req req' : Request} (hReq : req ∈ queue r) (hReq' : req' ∈ queue r')
    (hSame : req.addr = req'.addr) : r = r' ∧ req = req' := by
  have hLives : [Logged.enqueued r req] = [Logged.enqueued r' req'] := by
    rw [← h.life_queued hReq, ← h.life_queued hReq', hSame]
  simpa using hLives

omit [DecidableEq W] in
/-- A request in a worker's hands is in no queue. -/
theorem Accounted.carried_not_queued (h : Accounted brk queue view log) {w : W}
    {q : Resource × Request} (hq : q ∈ (view w).carried) : (life q.2.addr log).length ≠ 1 := by
  simp only [View.carried, List.mem_append] at hq
  rcases hq with (hq | hq) | hq
  · simp [(h.entering w q hq).2]
  · simp [(h.stashed w q hq).length]
  · simp [(h.answering w q hq).length]

omit [DecidableEq W] in
/-- A dequeued request is in no queue. -/
theorem Accounted.dequeued_not_queued (h : Accounted brk queue view log)
    {q : Resource × Request} (hq : q ∈ dequeuedAll log) : (life q.2.addr log).length ≠ 1 := by
  rcases h.served q hq with ⟨w, hw⟩ | hDone
  · refine h.carried_not_queued (w := w) ?_
    simp only [View.carried, List.append_assoc]
    exact List.mem_append_right _ hw
  · simp [hDone.length]

/-- The section of `enqueue_request`. -/
theorem Accounted.enqueue (h : Accounted brk queue view log) {w : W} {r : Resource}
    {req : Request} (hView : view w = ⟨[(r, req)], [], []⟩) (queue' : Resource → List Request)
    (hQueue : ∀ r', queue' r' = if r' = r then queue r ++ [req] else queue r') :
    Accounted brk queue' (Function.update view w ⟨[], [], []⟩) (log ++ [.enqueued r req]) := by
  obtain ⟨hLt, hNew⟩ := h.entering w (r, req) (by simp [hView])
  have hMine : (r, req) ∈ (view w).carried := by simp [View.carried, hView]
  have hKeep : ∀ a, life a log ≠ [] → ∀ x ∈ [Logged.enqueued r req], nodeOf x ≠ some a := by
    intro a ha x hx hNode
    rw [List.mem_singleton.mp hx, nodeOf, Option.some.injEq] at hNode
    exact ha (hNode ▸ hNew)
  refine h.advance (w := w) ⟨by simpa [nodeOf] using .inr hLt, ?_, by simp, by simp, by simp,
    by simp, by simp [View.carried]⟩ ?_ ?_ ?_ ?_
  · intro w' hw' q hq x hx
    rw [List.mem_singleton.mp hx, nodeOf, Ne, Option.some.injEq]
    exact h.apart w w' (Ne.symm hw') _ hMine q hq
  · intro r'
    have hOne : ofQueue r' [(r, req)] = if r' = r then [req] else [] := by
      by_cases hr : r' = r
      · simp [ofQueue, hr]
      · simp [ofQueue, hr, Ne.symm hr]
    have hDeq : dequeuedAll [Logged.enqueued r req] = [] := rfl
    have hEnq : enqueuedAll [Logged.enqueued r req] = [(r, req)] := rfl
    rw [hQueue, enqueuedAll_append, dequeuedAll_append, ofQueue_append, ofQueue_append, hDeq, hEnq,
      hOne, ← h.fifo r']
    by_cases hr : r' = r
    · subst hr
      simp [ofQueue]
    · simp [hr, ofQueue]
  · have hEnq : enqueuedAll [Logged.enqueued r req] = [(r, req)] := rfl
    rw [enqueuedAll_append, hEnq, List.map_append, List.nodup_append]
    refine ⟨h.distinct, by simp, ?_⟩
    intro a ha b hb
    obtain ⟨p, hp, rfl⟩ := List.mem_map.mp ha
    simp only [List.map_cons, List.map_nil, List.mem_singleton] at hb
    rw [hb]
    intro hSame
    exact life_ne_nil_of_enqueued hp (hSame ▸ hNew)
  · intro r' req' hreq'
    rw [hQueue] at hreq'
    have hOld : req' ∈ queue r' → Lived 1 (r', req') (log ++ [.enqueued r req]) := by
      intro hMem
      have hLife := h.queued r' req' hMem
      exact hLife.append (hKeep _ (by simp [lived_one.mp hLife]))
    split at hreq'
    · rename_i hr
      subst hr
      rcases List.mem_append.mp hreq' with hMem | hMem
      · exact hOld hMem
      · rw [List.mem_singleton.mp hMem, lived_one, life_concat_self log rfl, hNew]
        rfl
    · exact hOld hreq'
  · intro p hp
    have hp' : p ∈ dequeuedAll log := by simpa [dequeuedAll] using hp
    exact .inr (h.served_elsewhere hp' (by simp [hView])
      (hKeep _ (life_ne_nil_of_dequeued hp')))

/-- The locked loop of `drain_queue`, which takes `served` off the queue. -/
theorem Accounted.drain (h : Accounted brk queue view log) {w : W} {r : Resource}
    (hView : view w = ⟨[], [], []⟩) {served rest : List Request}
    (hCut : queue r = served ++ rest) (queue' : Resource → List Request)
    (hQueue : ∀ r', queue' r' = if r' = r then rest else queue r') :
    Accounted brk queue'
      (Function.update view w ⟨[], served.reverse.map fun req => (r, req), []⟩)
      (log ++ served.map fun req => .dequeued r req) := by
  have hNodup := h.queue_nodup r
  rw [hCut, List.map_append, List.nodup_append] at hNodup
  obtain ⟨hServedNodup, -, hApart⟩ := hNodup
  have hServed : ∀ req ∈ served, req ∈ queue r := fun req hreq => by simp [hCut, hreq]
  have hTaken : ∀ req ∈ served,
      Lived 2 (r, req) (log ++ served.map fun req => .dequeued r req) := by
    intro req hreq
    rw [lived_two, life_append, h.life_queued (hServed req hreq),
      life_dequeued hServedNodup hreq]
    rfl
  -- a life that is not exactly one entry long belongs to no request just taken
  have hKeep : ∀ a, (life a log).length ≠ 1 →
      ∀ x ∈ served.map fun req => Logged.dequeued r req, nodeOf x ≠ some a := by
    intro a ha x hx hNode
    obtain ⟨req, hreq, rfl⟩ := List.mem_map.mp hx
    rw [nodeOf, Option.some.injEq] at hNode
    exact ha (by simp [← hNode, h.life_queued (hServed req hreq)])
  obtain ⟨hEnq, hDeq⟩ := dequeued_entries r served
  refine h.advance (w := w) ⟨?_, ?_, by simp, ?_, by simp, ?_, ?_⟩ ?_ ?_ ?_ ?_
  · intro x hx a hNode
    obtain ⟨req, hreq, rfl⟩ := List.mem_map.mp hx
    rw [nodeOf, Option.some.injEq] at hNode
    exact .inl (by simp [← hNode, h.life_queued (hServed req hreq)])
  · exact fun w' _ q hq => hKeep _ (h.carried_not_queued hq)
  · intro p hp
    obtain ⟨req, hreq, rfl⟩ := List.mem_map.mp hp
    exact hTaken req (List.mem_reverse.mp hreq)
  · rw [List.map_map, List.map_reverse, List.Nodup, List.pairwise_reverse]
    exact hServedNodup.imp Ne.symm
  · intro p hp w' _ q hq
    simp only [View.carried, List.nil_append, List.append_nil, List.mem_map,
      List.mem_reverse] at hp
    obtain ⟨req, hreq, rfl⟩ := hp
    intro hSame
    exact hKeep _ (h.carried_not_queued hq) (.dequeued r req) (List.mem_map_of_mem hreq)
      (congrArg some hSame)
  · intro r'
    rw [hQueue, enqueuedAll_append, dequeuedAll_append, ofQueue_append, hEnq, hDeq, ofQueue_map,
      List.append_nil, ← h.fifo r']
    by_cases hr : r' = r
    · subst hr
      simp [hCut]
    · simp [hr, Ne.symm hr]
  · rw [enqueuedAll_append, hEnq, List.append_nil]
    exact h.distinct
  · intro r' req' hreq'
    rw [hQueue] at hreq'
    have hMem : req' ∈ queue r' := by
      split at hreq'
      · rename_i hr
        rw [hr, hCut]
        exact List.mem_append_right _ hreq'
      · exact hreq'
    refine (h.queued r' req' hMem).append ?_
    intro x hx hNode
    obtain ⟨req, hreq, rfl⟩ := List.mem_map.mp hx
    rw [nodeOf, Option.some.injEq] at hNode
    obtain ⟨rfl, rfl⟩ := h.queued_inj (hServed req hreq) hMem hNode
    rw [if_pos rfl] at hreq'
    exact hApart _ (List.mem_map_of_mem hreq) _ (List.mem_map_of_mem hreq') rfl
  · intro p hp
    rw [dequeuedAll_append, hDeq, List.mem_append] at hp
    rcases hp with hp | hp
    · exact .inr (h.served_elsewhere hp (by simp [hView]) (hKeep _ (h.dequeued_not_queued hp)))
    · obtain ⟨req, hreq, rfl⟩ := List.mem_map.mp hp
      exact .inl (by simp [hreq])

/-- A section that logs one entry about a request the worker holds and leaves
the queues alone. -/
theorem Accounted.hand (h : Accounted brk queue view log) {w : W} {p : Resource × Request}
    {x : Logged} {v : View} (hHeld : p ∈ (view w).stash ++ (view w).answering)
    (hNode : nodeOf x = some p.2.addr) (hEnq : enqueuedAll [x] = []) (hDeq : dequeuedAll [x] = [])
    (hPart : ∀ q ∈ v.carried, q ∈ (view w).stash ++ (view w).answering)
    (hEntering : v.entering = [])
    (hStashed : ∀ q ∈ v.stash, Lived 2 q (log ++ [x]))
    (hAnswering : ∀ q ∈ v.answering, Lived 3 q (log ++ [x]))
    (hNodup : (v.stash.map fun q => q.2.addr).Nodup)
    (hRest : ∀ q ∈ (view w).stash ++ (view w).answering,
      q ∈ v.stash ++ v.answering ∨ Lived 4 q (log ++ [x])) :
    Accounted brk queue (Function.update view w v) (log ++ [x]) := by
  have hCarried : ∀ q ∈ (view w).stash ++ (view w).answering, q ∈ (view w).carried := by
    intro q hq
    simp only [View.carried, List.append_assoc]
    exact List.mem_append_right _ hq
  have hLife : ∃ n, 2 ≤ n ∧ Lived n p log := by
    rcases List.mem_append.mp hHeld with hp | hp
    · exact ⟨2, le_refl _, h.stashed w p hp⟩
    · exact ⟨3, by omega, h.answering w p hp⟩
  obtain ⟨n, hn, hLife⟩ := hLife
  have hLen := hLife.length
  refine h.advance (w := w) ⟨?_, ?_, by simp [hEntering], hStashed, hAnswering, hNodup, ?_⟩
    ?_ ?_ ?_ ?_
  · intro y hy a ha
    rw [List.mem_singleton.mp hy, hNode, Option.some.injEq] at ha
    refine .inl fun hNil => ?_
    rw [ha, hNil, List.length_nil] at hLen
    omega
  · intro w' hw' q hq y hy
    rw [List.mem_singleton.mp hy, hNode, Ne, Option.some.injEq]
    exact h.apart w w' (Ne.symm hw') p (hCarried p hHeld) q hq
  · intro q hq w' hw' q' hq'
    exact h.apart w w' (Ne.symm hw') q (hCarried q (hPart q hq)) q' hq'
  · intro r
    rw [enqueuedAll_append, dequeuedAll_append, hEnq, hDeq, List.append_nil, List.append_nil]
    exact h.fifo r
  · rw [enqueuedAll_append, hEnq, List.append_nil]
    exact h.distinct
  · intro r req hreq
    have hQueued := h.queued r req hreq
    refine hQueued.concat fun hSame => ?_
    rw [hNode, Option.some.injEq] at hSame
    have hOne := hQueued.length
    rw [← hSame, hLen] at hOne
    omega
  · intro q hq
    rw [dequeuedAll_append, hDeq, List.append_nil] at hq
    by_cases hMine : q ∈ (view w).stash ++ (view w).answering
    · exact (hRest q hMine).imp_right .inr
    · refine .inr (h.served_elsewhere hq hMine fun y hy => ?_)
      rw [List.mem_singleton.mp hy, hNode]
      -- the same node would have the same life, hence the same request
      intro hSame
      have hq' := hq
      rw [mem_dequeuedAll] at hq'
      have hIn : Logged.dequeued q.1 q.2 ∈ life p.2.addr log :=
        mem_life.mpr ⟨hq', hSame.symm⟩
      obtain ⟨rj, hLife⟩ := hLife
      rw [hLife] at hIn
      have hIn' := List.mem_of_mem_take hIn
      simp [lifecycle, recordingOf, answerOf] at hIn'
      exact hMine (by rw [show q = p from Prod.ext hIn'.1 hIn'.2]; exact hHeld)

/-- `record_granted`'s insert, for the request at the head of the stash. -/
theorem Accounted.record (h : Accounted brk queue view log) {w : W} {p : Resource × Request}
    {rest : List (Resource × Request)} (hView : view w = ⟨[], p :: rest, []⟩) (rj : ReceivedJob) :
    Accounted brk queue (Function.update view w ⟨[], rest, [p]⟩) (log ++ [recordingOf p rj]) := by
  have hNodup := h.stash_nodup w
  rw [hView, List.map_cons, List.nodup_cons] at hNodup
  refine h.hand (p := p) (by simp [hView]) rfl rfl rfl ?_ rfl ?_ ?_ hNodup.2 ?_
  · intro q hq
    simpa [View.carried, hView, or_comm] using hq
  · intro q hq
    refine (h.stashed w q (by simp [hView, hq])).concat fun hSame => ?_
    rw [recordingOf, nodeOf, Option.some.injEq] at hSame
    exact hNodup.1 (List.mem_map.mpr ⟨q, hq, hSame.symm⟩)
  · intro q hq
    rw [List.mem_singleton.mp hq]
    refine ⟨rj, ?_⟩
    rw [life_concat_self log rfl, lived_two.mp (h.stashed w p (by simp [hView]))]
    rfl
  · intro q hq
    exact .inl (by simpa [hView, or_comm] using hq)

/-- The `send` of a recorded request. -/
theorem Accounted.answer (h : Accounted brk queue view log) {w : W} {p : Resource × Request}
    {rest : List (Resource × Request)} (hView : view w = ⟨[], rest, [p]⟩) :
    Accounted brk queue (Function.update view w ⟨[], rest, []⟩) (log ++ [answerOf p]) := by
  have hLife : Lived 3 p log := h.answering w p (by simp [hView])
  refine h.hand (p := p) (by simp [hView]) rfl rfl rfl ?_ rfl ?_ (by simp) ?_ ?_
  · intro q hq
    simp only [View.carried, List.nil_append, List.append_nil] at hq
    simp [hView, hq]
  · intro q hq
    have hStashed := h.stashed w q (by simp [hView, hq])
    refine hStashed.concat fun hSame => ?_
    rw [answerOf, nodeOf, Option.some.injEq] at hSame
    have hTwo := hStashed.length
    rw [← hSame, hLife.length] at hTwo
    omega
  · simpa [hView] using h.stash_nodup w
  · intro q hq
    simp only [hView, List.mem_append, List.mem_singleton] at hq
    rcases hq with hq | rfl
    · exact .inl (by simp [hq])
    · obtain ⟨rj, hLife⟩ := hLife
      refine .inr ⟨rj, ?_⟩
      rw [life_concat_self log rfl, hLife]
      rfl

/-- Entering `enqueue_jobs`: the request gets the next address. -/
theorem Accounted.allocate (h : Accounted brk queue view log) {w : W} {p : Resource × Request}
    (hView : view w = ⟨[], [], []⟩) (hAddr : p.2.addr = brk) :
    Accounted (brk + 1) queue (Function.update view w ⟨[p], [], []⟩) log := by
  -- everything a worker carries was allocated before
  have hOld : ∀ w', ∀ q ∈ (view w').carried, q.2.addr < brk := by
    intro w' q hq
    by_contra hGe
    have hNone := h.fresh q.2.addr (by omega)
    simp only [View.carried, List.mem_append] at hq
    rcases hq with (hq | hq) | hq
    · have := (h.entering w' q hq).1
      omega
    · simpa [hNone] using (h.stashed w' q hq).length
    · simpa [hNone] using (h.answering w' q hq).length
  refine ⟨h.fifo, h.distinct, fun a ha => h.fresh a (by omega), fun w₁ => ?_, h.queued,
    fun w₁ => ?_, fun w₁ => ?_, ?_, fun w₁ => ?_, apart_update h.apart ?_⟩
  · refine forall_view_update
      (P := fun v => ∀ q ∈ v.entering, q.2.addr < brk + 1 ∧ life q.2.addr log = [])
      ?_ (fun w' _ q hq => ?_) w₁
    · intro q hq
      rw [List.mem_singleton.mp hq, hAddr]
      exact ⟨by omega, h.fresh brk (le_refl _)⟩
    · obtain ⟨hLt, hNone⟩ := h.entering w' q hq
      exact ⟨by omega, hNone⟩
  · exact forall_view_update
      (P := fun v => ∀ q ∈ v.stash, Lived 2 q log)
      (by simp) (fun w' _ => h.stashed w') w₁
  · exact forall_view_update
      (P := fun v => ∀ q ∈ v.answering, Lived 3 q log)
      (by simp) (fun w' _ => h.answering w') w₁
  · intro q hq
    rcases h.served q hq with ⟨w', hw'⟩ | hDone
    · refine .inl ⟨w', ?_⟩
      rw [Function.update_of_ne]
      · exact hw'
      · rintro rfl
        simp [hView] at hw'
    · exact .inr hDone
  · exact forall_view_update (P := fun v => (v.stash.map fun q => q.2.addr).Nodup)
      (v := ⟨[p], [], []⟩) List.Pairwise.nil (fun w' _ => h.stash_nodup w') w₁
  · intro q hq w' _ q' hq'
    simp only [View.carried, List.append_nil, List.mem_singleton] at hq
    rw [hq, hAddr]
    exact Nat.ne_of_gt (hOld w' q' hq')

/-- The invariant of a pool state. -/
def PoolAccounted (s : Pool W) : Prop :=
  Accounted s.server.brk (fun r => (s.server.queue r).requests)
    (fun w => viewOf (s.worker w)) s.log

theorem viewOf_update (worker : W → Worker) (w : W) (pc : Worker) :
    (fun w' => viewOf (Function.update worker w pc w')) =
      Function.update (fun w' => viewOf (worker w')) w (viewOf pc) := by
  funext w'
  by_cases h : w' = w
  · subst h
    simp
  · simp [h]

omit [DecidableEq W] in
/-- Entries about no node count for nothing. -/
theorem Accounted.note (h : Accounted brk queue view log) {l : List Logged}
    (hNode : ∀ x ∈ l, nodeOf x = none) : Accounted brk queue view (log ++ l) := by
  have hOther : ∀ a, ∀ x ∈ l, nodeOf x ≠ some a := by
    intro a x hx hSome
    rw [hNode x hx] at hSome
    cases hSome
  have hEnq : enqueuedAll (log ++ l) = enqueuedAll log := by
    rw [enqueuedAll_append, List.append_right_eq_self, List.eq_nil_iff_forall_not_mem]
    intro p hp
    cases hNode _ (mem_enqueuedAll.mp hp)
  have hDeq : dequeuedAll (log ++ l) = dequeuedAll log := by
    rw [dequeuedAll_append, List.append_right_eq_self, List.eq_nil_iff_forall_not_mem]
    intro p hp
    cases hNode _ (mem_dequeuedAll.mp hp)
  have hSame : ∀ a, life a (log ++ l) = life a log := by
    intro a
    rw [life_append, life_eq_nil (hOther a), List.append_nil]
  refine ⟨?_, ?_, fun a ha => ?_, fun w p hp => ?_, fun r req hreq => ?_, fun w p hp => ?_,
    fun w p hp => ?_, fun p hp => ?_, h.stash_nodup, h.apart⟩
  · rw [hEnq, hDeq]
    exact h.fifo
  · rw [hEnq]
    exact h.distinct
  · rw [hSame]
    exact h.fresh a ha
  · rw [hSame]
    exact h.entering w p hp
  · exact (h.queued r req hreq).append (hOther _)
  · exact (h.stashed w p hp).append (hOther _)
  · exact (h.answering w p hp).append (hOther _)
  · rw [hDeq] at hp
    exact (h.served p hp).imp_right fun hDone => hDone.append (hOther _)

/-- A section that changes neither the contents of the queues nor what its
worker holds. -/
theorem PoolAccounted.still {s : Pool W} (h : PoolAccounted s) {server : ServerState} {w : W}
    {pc : Worker} {l : List Logged} (hBrk : server.brk = s.server.brk)
    (hQueue : ∀ r, (server.queue r).requests = (s.server.queue r).requests)
    (hView : viewOf pc = viewOf (s.worker w)) (hNode : ∀ x ∈ l, nodeOf x = none) :
    PoolAccounted ⟨server, Function.update s.worker w pc, s.log ++ l⟩ := by
  unfold PoolAccounted
  rw [viewOf_update, hView, Function.update_eq_self_iff.mpr rfl, hBrk]
  simp only [hQueue]
  exact Accounted.note h hNode

theorem PoolAccounted.go {s : Pool W} (h : PoolAccounted s) (w : W) (peer : Option Addr) :
    PoolAccounted (poolStep s (.go w peer)) := by
  simp only [poolStep]
  cases hPc : s.worker w with
  | idle => exact h.still rfl (fun _ => rfl) (by rw [hPc]; rfl) (by simp [runSection])
  | enqueue r req =>
      have hStep := Accounted.enqueue h (w := w) (by rw [hPc]; rfl)
        (fun r' => ((s.server.setQueue r
          (enqueueRequest (s.server.queue r) req)).queue r').requests)
        (fun r' => by simp only [setQueue_queue]; split <;> rfl)
      unfold PoolAccounted
      rw [viewOf_update]
      exact hStep
  | scan fd =>
      simp only [runSection]
      split
      · exact h.still rfl (fun _ => rfl) (by rw [hPc]; rfl) (by simp)
      · exact h.still rfl (fun _ => rfl) (by rw [hPc]; rfl) (by simp [nodeOf])
  | credit r add =>
      simp only [runSection]
      refine h.still rfl (fun r' => ?_) ?_ (by simp [nodeOf])
      · simp only [setQueue_queue]
        split
        · rename_i hr
          rw [hr]
        · rfl
      · rw [hPc]
        cases r <;> rfl
  | drain r =>
      obtain ⟨served, rest, hCut, hDrain, -, -⟩ :=
        drainLocked_spec (s.server.queue r).requests (s.server.queue r).resourcesLeft []
      have hStep := fun left => Accounted.drain h (w := w) (r := r) (by rw [hPc]; rfl) hCut
        (fun r' => ((s.server.setQueue r ⟨left, rest⟩).queue r').requests)
        (fun r' => by simp only [setQueue_queue]; split <;> rfl)
      unfold PoolAccounted
      simp only [runSection, hDrain, List.append_nil, List.reverse_reverse]
      rw [viewOf_update]
      exact hStep _
  | serve r ready =>
      cases ready with
      | nil =>
          refine h.still rfl (fun _ => rfl) ?_ (by simp [runSection])
          rw [hPc]
          cases r <;> rfl
      | cons req ready =>
          exact h.still rfl (fun _ => rfl) (by rw [hPc]; rfl) (by simp [runSection])
  | insert r req rj ready =>
      have hStep := Accounted.record h (w := w) (p := (r, req)) (by rw [hPc]; rfl) rj
      unfold PoolAccounted
      rw [viewOf_update]
      exact hStep
  | answer r req ready =>
      have hStep := Accounted.answer h (w := w) (p := (r, req)) (by rw [hPc]; rfl)
      unfold PoolAccounted
      rw [viewOf_update]
      exact hStep

theorem PoolAccounted.step {s : Pool W} (h : PoolAccounted s) (a : Act W) :
    PoolAccounted (poolStep s a) := by
  cases a with
  | go w peer => exact h.go w peer
  | call w c =>
      simp only [poolStep]
      cases hPc : s.worker w with
      | idle =>
          cases c with
          | enqueueJobs resource jobId amount fd =>
              have hStep := Accounted.allocate h (w := w)
                (p := (Resource.ofName resource, makeRequest s.server jobId fd amount))
                (by rw [hPc]; rfl) rfl
              unfold PoolAccounted
              rw [viewOf_update]
              exact hStep
          | releaseClientByFd fd =>
              have hStep : PoolAccounted
                  ⟨s.server, Function.update s.worker w (.scan fd), s.log ++ []⟩ :=
                h.still rfl (fun _ => rfl) (by rw [hPc]; rfl) (by simp)
              rw [List.append_nil] at hStep
              exact hStep
      | _ => exact h

theorem accounted_run (capacity : Resource → Int) (acts : List (Act W)) :
    PoolAccounted (run poolStep (Pool.init capacity) acts) := by
  refine run_invariant_always PoolAccounted (fun s a hs => hs.step a) ?_ acts
  refine ⟨fun r => rfl, by simp [Pool.init, enqueuedAll], fun _ _ => rfl, ?_, ?_, ?_, ?_, ?_, ?_,
    ?_⟩ <;>
    simp [Pool.init, viewOf, View.carried, dequeuedAll, ServerState.init, makeQueue]

/-! ## The calls behind the log -/

/-- The request an `enqueue_jobs` call makes. -/
def requested (s : Pool W) : Act W → List (Resource × Request)
  | .call w (.enqueueJobs resource jobId amount fd) =>
      match s.worker w with
      | .idle => [(Resource.ofName resource, makeRequest s.server jobId fd amount)]
      | _ => []
  | _ => []

/-- The requests of the `enqueue_jobs` calls of a run, in the order of the calls. -/
def requests (s : Pool W) (acts : List (Act W)) : List (Resource × Request) :=
  scripts poolStep requested s acts

/-- Where the workers are after one of them has moved. -/
theorem exists_update_iff {worker : W → Worker} {w : W} {pc pc' : Worker} :
    (∃ w', Function.update worker w pc w' = pc') ↔
      pc = pc' ∨ ∃ w', w' ≠ w ∧ worker w' = pc' := by
  constructor
  · rintro ⟨w', h⟩
    by_cases hw : w' = w
    · rw [hw, Function.update_self] at h
      exact .inl h
    · rw [Function.update_of_ne hw] at h
      exact .inr ⟨w', hw, h⟩
  · rintro (rfl | ⟨w', hw, h⟩)
    · exact ⟨w, Function.update_self ..⟩
    · exact ⟨w', by rw [Function.update_of_ne hw, h]⟩

theorem exists_worker_iff {worker : W → Worker} (w : W) {pc : Worker} :
    (∃ w', worker w' = pc) ↔ worker w = pc ∨ ∃ w', w' ≠ w ∧ worker w' = pc := by
  have hIff := @exists_update_iff _ _ worker w (worker w) pc
  rwa [Function.update_eq_self] at hIff

/-- Every request made so far has been queued or is about to be. -/
structure Called (calls : List (Resource × Request)) (s : Pool W) : Prop where
  mem : ∀ p, p ∈ calls ↔ p ∈ enqueuedAll s.log ∨ ∃ w, s.worker w = .enqueue p.1 p.2
  nodup : (calls.map fun p => p.2.addr).Nodup
  below : ∀ p ∈ calls, p.2.addr < s.server.brk

/-- Only the section of `enqueue_request` queues a request. -/
theorem runSection_enqueues (peer : Option Addr) (s : ServerState) (pc : Worker) :
    (∀ r req, (runSection peer s pc).2.1 ≠ .enqueue r req) ∧
      (runSection peer s pc).1.brk = s.brk ∧
      ∀ p, p ∈ enqueuedAll (runSection peer s pc).2.2 ↔ pc = .enqueue p.1 p.2 := by
  cases pc with
  | idle => simp [runSection, enqueuedAll]
  | enqueue r req =>
      refine ⟨by simp [runSection], rfl, fun p => ?_⟩
      simp only [runSection, mem_enqueuedAll, List.mem_singleton, Logged.enqueued.injEq,
        Worker.enqueue.injEq]
      exact and_congr eq_comm eq_comm
  | scan fd =>
      simp only [runSection]
      split <;> simp [enqueuedAll]
  | credit r add => cases r <;> simp [runSection, afterCredit, enqueuedAll]
  | drain r =>
      refine ⟨by simp [runSection], rfl, fun p => ?_⟩
      simp [runSection, mem_enqueuedAll]
  | serve r ready =>
      cases ready with
      | nil => cases r <;> simp [runSection, afterDrain, enqueuedAll]
      | cons req ready => simp [runSection, enqueuedAll]
  | insert r req rj ready => simp [runSection, enqueuedAll]
  | answer r req ready => simp [runSection, enqueuedAll]

theorem Called.go {calls : List (Resource × Request)} {s : Pool W} (h : Called calls s) (w : W)
    (peer : Option Addr) : Called calls (poolStep s (.go w peer)) := by
  obtain ⟨hPc, hBrk, hEnq⟩ := runSection_enqueues peer s.server (s.worker w)
  refine ⟨fun p => ?_, h.nodup, fun p hp => ?_⟩
  · simp only [poolStep, enqueuedAll_append, List.mem_append, hEnq, exists_update_iff, hPc,
      false_or, or_assoc]
    rw [h.mem, exists_worker_iff w]
  · simp only [poolStep, hBrk]
    exact h.below p hp

theorem Called.enter {calls : List (Resource × Request)} {s : Pool W} (h : Called calls s) {w : W}
    (hIdle : s.worker w = .idle) (c : Call) :
    Called (calls ++ requested s (.call w c)) (poolStep s (.call w c)) := by
  have hMem : ∀ p, p ∈ calls ↔
      p ∈ enqueuedAll s.log ∨ ∃ w', w' ≠ w ∧ s.worker w' = .enqueue p.1 p.2 := by
    intro p
    simp only [h.mem, exists_worker_iff w, hIdle, reduceCtorEq, false_or]
  cases c with
  | enqueueJobs resource jobId amount fd =>
      simp only [poolStep, requested, hIdle, Workers.enter]
      refine ⟨fun p => ?_, ?_, fun p hp => ?_⟩
      · simp only [List.mem_append, List.mem_singleton, hMem, exists_update_iff,
          Worker.enqueue.injEq, Prod.ext_iff, eq_comm (a := p.1), eq_comm (a := p.2), or_assoc]
        exact or_congr_right or_comm
      · rw [List.map_append, List.nodup_append]
        refine ⟨h.nodup, by simp, ?_⟩
        intro a ha b hb
        obtain ⟨p, hp, rfl⟩ := List.mem_map.mp ha
        rw [List.mem_singleton.mp hb]
        exact Nat.ne_of_lt (h.below p hp)
      · rcases List.mem_append.mp hp with hp | hp
        · exact Nat.lt_succ_of_lt (h.below p hp)
        · rw [List.mem_singleton.mp hp]
          exact Nat.lt_succ_self _
  | releaseClientByFd fd =>
      simp only [poolStep, requested, hIdle, Workers.enter, List.append_nil]
      refine ⟨fun p => ?_, h.nodup, h.below⟩
      simp only [hMem, exists_update_iff, reduceCtorEq, false_or]

theorem Called.step {calls : List (Resource × Request)} {s : Pool W} (h : Called calls s)
    (a : Act W) : Called (calls ++ requested s a) (poolStep s a) := by
  cases a with
  | go w peer => simpa [requested] using h.go w peer
  | call w c =>
      cases hPc : s.worker w with
      | idle => exact h.enter hPc c
      | _ =>
          have hNone : requested s (.call w c) = [] := by
            cases c <;> simp [requested, hPc]
          simpa only [hNone, List.append_nil, poolStep, hPc] using h

theorem Called.run {calls : List (Resource × Request)} {s : Pool W} (h : Called calls s)
    (acts : List (Act W)) :
    Called (calls ++ requests s acts) (run poolStep s acts) := by
  induction acts generalizing calls s with
  | nil => simpa [requests, scripts] using h
  | cons a acts ih => simpa [requests, scripts] using ih (h.step a)

theorem called_run (capacity : Resource → Int) (acts : List (Act W)) :
    Called (requests (Pool.init capacity) acts) (run poolStep (Pool.init capacity) acts) := by
  have hInit : Called [] (Pool.init capacity : Pool W) :=
    ⟨by simp [Pool.init, enqueuedAll], by simp, by simp⟩
  simpa using hInit.run acts

end

/-! ## The table and the pools behind the log -/

/-- `table_nodejobs` as the log has it. -/
def tableOf (log : List Logged) : Table jobCallbacks :=
  log.foldl (fun t x => match x with
    | .recorded _ _ _ _ _ rj => tablahashInsert t rj
    | .unlinked fd => removeWhere t fun job => decide (job.originalSocket = fd)
    | _ => t) (tablahashCreate jobCallbacks)

/-- The amounts returned to the pool of `r`. -/
def creditedAll (r : Resource) (log : List Logged) : List Int :=
  log.filterMap fun
    | .credited r' amount => if r' = r then some amount else none
    | _ => none

/-- `resources_left` of `r` as the log has it. -/
def leftOf (capacity : Resource → Int) (r : Resource) (log : List Logged) : Int :=
  capacity r - ((ofQueue r (dequeuedAll log)).map fun req => req.amountRequested).sum +
    (creditedAll r log).sum

/-- `rj` is what a `tablahash_find` made after the request had been dequeued found under
the key of job and peer (an empty record if nothing), plus the amount of the request,
attributed to its socket. -/
def Found (log : List Logged) (p : Resource × Request) (rj : ReceivedJob) : Prop :=
  ∃ seen rest peer, log = seen ++ rest ∧ .dequeued p.1 p.2 ∈ seen ∧
    rj = recordOf (tableOf seen) ⟨p.1, p.2, peer⟩

/-- `add` is what a bucket scan found reserved on the socket it unlinked. -/
def Reclaimed (log : List Logged) (add : Resource → Int) : Prop :=
  ∃ seen fd rest, log = seen ++ .unlinked fd :: rest ∧
    add = totalGranted (reservedOn (tableOf seen) fd)

theorem Found.append {log : List Logged} {p : Resource × Request} {rj : ReceivedJob}
    (h : Found log p rj) (l : List Logged) : Found (log ++ l) p rj := by
  obtain ⟨seen, rest, peer, rfl, hMem, hRecord⟩ := h
  exact ⟨seen, rest ++ l, peer, by simp, hMem, hRecord⟩

theorem Reclaimed.append {log : List Logged} {add : Resource → Int} (h : Reclaimed log add)
    (l : List Logged) : Reclaimed (log ++ l) add := by
  obtain ⟨seen, fd, rest, rfl, hAdd⟩ := h
  exact ⟨seen, fd, rest ++ l, by simp, hAdd⟩

/-- What an entry claims follows from the entries before it. -/
def Backed (log : List Logged) : Logged → Prop
  | .recorded addr jobId originSocket r amount rj =>
      Found log (r, ⟨addr, jobId, originSocket, amount⟩) rj
  | .credited r amount => ∃ add, Reclaimed log add ∧ amount = add r
  | .sent addr socket line =>
      ∃ p rj, recordingOf p rj ∈ log ∧ .sent addr socket line = answerOf p
  | _ => True

/-- The server state is what the log says, and the log holds no empty claim. -/
structure Booked {W : Type} (capacity : Resource → Int) (s : Pool W) : Prop where
  table : s.server.tableNodejobs = tableOf s.log
  left : ∀ r, (s.server.queue r).resourcesLeft = leftOf capacity r s.log
  backed : ∀ log x l, s.log = log ++ x :: l → Backed log x
  found : ∀ w r req rj ready, s.worker w = .insert r req rj ready → Found s.log (r, req) rj
  reclaimed : ∀ w r add, s.worker w = .credit r add → Reclaimed s.log add

@[simp] theorem creditedAll_append (r : Resource) (log l : List Logged) :
    creditedAll r (log ++ l) = creditedAll r log ++ creditedAll r l := by simp [creditedAll]

theorem tableOf_append (log l : List Logged) (hKeep : ∀ x ∈ l,
      (∀ a j o r n rj, x ≠ .recorded a j o r n rj) ∧ ∀ fd, x ≠ .unlinked fd) :
    tableOf (log ++ l) = tableOf log := by
  rw [tableOf, tableOf, List.foldl_append]
  induction l generalizing log with
  | nil => rfl
  | cons x l ih =>
      have hRest := ih (log ++ [x]) fun y hy => hKeep y (List.mem_cons_of_mem _ hy)
      rw [List.foldl_cons]
      rw [List.foldl_append, List.foldl_cons, List.foldl_nil] at hRest
      rw [hRest]
      obtain ⟨hRecorded, hUnlinked⟩ := hKeep x (List.mem_cons_self ..)
      cases x with
      | recorded a j o r n rj => exact absurd rfl (hRecorded a j o r n rj)
      | unlinked fd => exact absurd rfl (hUnlinked fd)
      | _ => rfl

/-- What one section logs is what it does to the table. -/
theorem runSection_table (peer : Option Addr) (s : ServerState) (pc : Worker) (log : List Logged)
    (hTable : s.tableNodejobs = tableOf log) :
    (runSection peer s pc).1.tableNodejobs = tableOf (log ++ (runSection peer s pc).2.2) := by
  cases pc with
  | scan fd =>
      simp only [runSection]
      split
      · simpa using hTable
      · simp [tableOf, List.foldl_append, creditOnly, hTable]
  | insert r req rj ready => simp [runSection, tableOf, List.foldl_append, hTable]
  | serve r ready => cases ready <;> simpa [runSection] using hTable
  | drain r =>
      rw [tableOf_append _ _ (by simp [runSection]), ← hTable]
      rfl
  | _ =>
      rw [tableOf_append _ _ (by simp [runSection]), ← hTable]
      rfl

/-- Entries that dequeue nothing and return nothing. -/
theorem leftOf_append (capacity : Resource → Int) (r : Resource) (log : List Logged)
    {l : List Logged} (hDeq : dequeuedAll l = []) (hCred : creditedAll r l = []) :
    leftOf capacity r (log ++ l) = leftOf capacity r log := by
  rw [leftOf, dequeuedAll_append, creditedAll_append, hDeq, hCred, List.append_nil,
    List.append_nil, leftOf]

/-- What one section logs is what it does to the pools. -/
theorem runSection_left (peer : Option Addr) (s : ServerState) (pc : Worker)
    (capacity : Resource → Int) (log : List Logged)
    (hLeft : ∀ r, (s.queue r).resourcesLeft = leftOf capacity r log) (r' : Resource) :
    ((runSection peer s pc).1.queue r').resourcesLeft =
      leftOf capacity r' (log ++ (runSection peer s pc).2.2) := by
  cases pc with
  | enqueue r req =>
      rw [leftOf_append capacity r' log rfl rfl, ← hLeft r']
      simp only [runSection, setQueue_queue]
      split
      · rename_i hr
        rw [hr]
        rfl
      · rfl
  | scan fd =>
      simp only [runSection]
      split
      · simpa using hLeft r'
      · rw [leftOf_append capacity r' log rfl rfl]
        exact hLeft r'
  | credit r add =>
      simp only [runSection, setQueue_queue]
      split
      · rename_i hr
        subst hr
        have hDeq : dequeuedAll [Logged.credited r' (add r')] = [] := rfl
        have hCred : creditedAll r' [Logged.credited r' (add r')] = [add r'] := by
          simp [creditedAll]
        rw [leftOf, dequeuedAll_append, creditedAll_append, hDeq, hCred, List.append_nil,
          List.sum_append, List.sum_singleton, hLeft r', leftOf]
        dsimp only
        omega
      · rename_i hr
        rw [leftOf_append capacity r' log rfl (by simp [creditedAll, Ne.symm hr])]
        exact hLeft r'
  | drain r =>
      obtain ⟨served, rest, -, hDrain, -, -⟩ :=
        drainLocked_spec (s.queue r).requests (s.queue r).resourcesLeft []
      have hCred : creditedAll r' (served.map fun req => Logged.dequeued r req) = [] := by
        simp [creditedAll, List.filterMap_map]
      simp only [runSection, hDrain, List.append_nil, List.reverse_reverse, setQueue_queue, leftOf,
        dequeuedAll_append, (dequeued_entries r served).2, creditedAll_append, hCred,
        ofQueue_append, ofQueue_map]
      split
      · rename_i hr
        subst hr
        rw [if_pos rfl, List.map_append, List.sum_append, hLeft r', leftOf]
        dsimp only
        omega
      · rename_i hr
        rw [if_neg (Ne.symm hr), List.append_nil]
        exact hLeft r'
  | serve r ready => cases ready <;> simpa [runSection] using hLeft r'
  | idle => simpa [runSection] using hLeft r'
  | insert r req rj ready =>
      rw [leftOf_append capacity r' log rfl rfl]
      exact hLeft r'
  | answer r req ready =>
      rw [leftOf_append capacity r' log rfl rfl]
      exact hLeft r'

theorem Backed.append {log : List Logged} {x : Logged} (h : Backed log x) (l : List Logged) :
    Backed (log ++ l) x := by
  cases x with
  | recorded a j o r n rj => exact Found.append h l
  | credited r amount =>
      obtain ⟨add, hReclaimed, hAmount⟩ := h
      exact ⟨add, hReclaimed.append l, hAmount⟩
  | sent addr socket line =>
      obtain ⟨p, rj, hMem, hLine⟩ := h
      exact ⟨p, rj, List.mem_append_left l hMem, hLine⟩
  | _ => trivial

/-- A worker about to insert a record has just found it. -/
theorem runSection_found {peer : Option Addr} {s : ServerState} {pc : Worker} {r : Resource}
    {req : Request} {rj : ReceivedJob} {ready : List Request}
    (h : (runSection peer s pc).2.1 = .insert r req rj ready) :
    pc = .serve r (req :: ready) ∧ rj = recordOf s.tableNodejobs ⟨r, req, peer⟩ := by
  cases pc with
  | scan fd =>
      simp only [runSection] at h
      split at h <;> cases h
  | credit r' add => cases r' <;> cases h
  | serve r' ready' =>
      cases ready' with
      | nil => cases r' <;> cases h
      | cons req' ready' =>
          obtain ⟨rfl, rfl, rfl, rfl⟩ : r' = r ∧ req' = req ∧
              recordOf s.tableNodejobs ⟨r', req', peer⟩ = rj ∧ ready' = ready := by
            simpa [runSection] using h
          exact ⟨rfl, rfl⟩
  | _ => cases h

/-- A worker about to credit a pool was doing so, or has just unlinked records. -/
theorem runSection_reclaimed {peer : Option Addr} {s : ServerState} {pc : Worker} {r : Resource}
    {add : Resource → Int} (h : (runSection peer s pc).2.1 = .credit r add) :
    (∃ r', pc = .credit r' add) ∨
      ∃ fd, (runSection peer s pc).2.2 = [.unlinked fd] ∧
        add = totalGranted (reservedOn s.tableNodejobs fd) := by
  cases pc with
  | scan fd =>
      by_cases hNone : reservedOn s.tableNodejobs fd = []
      · simp [runSection, hNone] at h
      · simp only [runSection, hNone, if_false, Worker.credit.injEq] at h
        exact .inr ⟨fd, by simp [runSection, hNone], h.2.symm⟩
  | credit r' add' =>
      have hSame : add' = add := by
        cases r' <;> simp_all [runSection, afterCredit]
      exact .inl ⟨r', by rw [hSame]⟩
  | serve r' ready' => cases ready' with
    | nil => cases r' <;> cases h
    | cons req' ready' => cases h
  | _ => cases h

/-- A section logs only what is backed. -/
theorem runSection_backed {peer : Option Addr} {s : ServerState} {pc : Worker}
    {log : List Logged}
    (hFound : ∀ r req rj ready, pc = .insert r req rj ready → Found log (r, req) rj)
    (hReclaimed : ∀ r add, pc = .credit r add → Reclaimed log add)
    (hRecorded : ∀ r req ready, pc = .answer r req ready → ∃ rj, recordingOf (r, req) rj ∈ log) :
    ∀ x ∈ (runSection peer s pc).2.2, Backed log x := by
  intro x hx
  cases pc with
  | insert r req rj ready =>
      rw [List.mem_singleton.mp hx]
      exact hFound r req rj ready rfl
  | credit r add =>
      rw [List.mem_singleton.mp hx]
      exact ⟨add, hReclaimed r add rfl, rfl⟩
  | idle => cases hx
  | enqueue r req =>
      rw [List.mem_singleton.mp hx]
      trivial
  | scan fd =>
      simp only [runSection] at hx
      split at hx
      · cases hx
      · rw [List.mem_singleton.mp hx]
        trivial
  | drain r =>
      obtain ⟨req, -, rfl⟩ := List.mem_map.mp hx
      trivial
  | serve r ready => cases ready <;> cases hx
  | answer r req ready =>
      rw [List.mem_singleton.mp hx]
      obtain ⟨rj, hMem⟩ := hRecorded r req ready rfl
      exact ⟨(r, req), rj, hMem, rfl⟩

/-- Backed entries may be added to a log of backed entries. -/
theorem backed_append {log new : List Logged}
    (hOld : ∀ l x l', log = l ++ x :: l' → Backed l x) (hNew : ∀ x ∈ new, Backed log x) :
    ∀ l x l', log ++ new = l ++ x :: l' → Backed l x := by
  intro l x l' hSplit
  rcases List.append_eq_append_iff.mp hSplit with ⟨mid, rfl, hRest⟩ | ⟨mid, rfl, hRest⟩
  · exact (hNew x (by simp [hRest])).append mid
  · cases mid with
    | nil =>
        rw [List.nil_append] at hRest
        simpa using hNew x (by simp [← hRest])
    | cons y mid =>
        obtain ⟨rfl, rfl⟩ : x = y ∧ l' = mid ++ new := by simpa using hRest
        exact hOld l x mid rfl

section

variable {W : Type} [DecidableEq W]

theorem Booked.enter {capacity : Resource → Int} {s : Pool W} (h : Booked capacity s) {w : W}
    (hIdle : s.worker w = .idle) (c : Call) : Booked capacity (poolStep s (.call w c)) := by
  have hServer : (Workers.enter s.server c).1.tableNodejobs = s.server.tableNodejobs ∧
      ∀ r, (Workers.enter s.server c).1.queue r = s.server.queue r := by
    cases c <;> exact ⟨rfl, fun r => rfl⟩
  simp only [poolStep, hIdle]
  refine ⟨hServer.1.trans h.table, fun r => by rw [hServer.2]; exact h.left r, h.backed,
    fun w' r req rj ready hw' => ?_, fun w' r add hw' => ?_⟩
  · rcases exists_update_iff.mp ⟨w', hw'⟩ with hNew | ⟨w₁, -, hOld⟩
    · cases c <;> cases hNew
    · exact h.found w₁ r req rj ready hOld
  · rcases exists_update_iff.mp ⟨w', hw'⟩ with hNew | ⟨w₁, -, hOld⟩
    · cases c <;> cases hNew
    · exact h.reclaimed w₁ r add hOld

theorem Booked.go {capacity : Resource → Int} {s : Pool W} (h : Booked capacity s)
    (hAccounted : PoolAccounted s) (w : W) (peer : Option Addr) :
    Booked capacity (poolStep s (.go w peer)) := by
  refine ⟨runSection_table peer s.server (s.worker w) s.log h.table,
    runSection_left peer s.server (s.worker w) capacity s.log h.left, ?_,
    fun w' r req rj ready hw' => ?_, fun w' r add hw' => ?_⟩
  · refine backed_append h.backed (runSection_backed (h.found w) (h.reclaimed w) ?_)
    intro r req ready hPc
    obtain ⟨rj, hLife⟩ := hAccounted.answering w (r, req) (by simp [hPc, viewOf])
    refine ⟨rj, (mem_life (a := req.addr).mp ?_).1⟩
    rw [hLife]
    simp [lifecycle]
  · rcases exists_update_iff.mp ⟨w', hw'⟩ with hNew | ⟨w₁, -, hOld⟩
    · obtain ⟨hPc, rfl⟩ := runSection_found hNew
      -- the request is in the stash, so its removal from the queue is in the log
      have hTaken : Lived 2 (r, req) s.log :=
        hAccounted.stashed w (r, req) (by simp [hPc, viewOf])
      refine ⟨s.log, _, peer, rfl, ?_, by rw [← h.table]⟩
      refine (mem_life (a := req.addr).mp ?_).1
      rw [lived_two.mp hTaken]
      simp
    · exact (h.found w₁ r req rj ready hOld).append _
  · rcases exists_update_iff.mp ⟨w', hw'⟩ with hNew | ⟨w₁, -, hOld⟩
    · rcases runSection_reclaimed hNew with ⟨r', hPc⟩ | ⟨fd, hLog, rfl⟩
      · exact (h.reclaimed w r' add hPc).append _
      · refine ⟨s.log, fd, [], ?_, by rw [← h.table]⟩
        simp only [poolStep, hLog]
    · exact (h.reclaimed w₁ r add hOld).append _

theorem Booked.step {capacity : Resource → Int} {s : Pool W} (h : Booked capacity s)
    (hAccounted : PoolAccounted s) (a : Act W) : Booked capacity (poolStep s a) := by
  cases a with
  | go w peer => exact h.go hAccounted w peer
  | call w c =>
      cases hPc : s.worker w with
      | idle => exact h.enter hPc c
      | _ => simpa only [poolStep, hPc] using h

theorem booked_run (capacity : Resource → Int) (acts : List (Act W)) :
    PoolAccounted (run poolStep (Pool.init capacity) acts) ∧
      Booked capacity (run poolStep (Pool.init capacity) acts) := by
  have hInit : Booked capacity (Pool.init capacity : Pool W) := by
    refine ⟨rfl, fun r => ?_, ?_, ?_, ?_⟩
    · simp [Pool.init, ServerState.init, makeQueue, leftOf, dequeuedAll, creditedAll, ofQueue]
    all_goals simp [Pool.init]
  refine ⟨accounted_run capacity acts, ?_⟩
  exact (run_invariant_always (fun s => PoolAccounted s ∧ Booked capacity s)
    (fun s a hs => ⟨hs.1.step a, hs.2.step hs.1 a⟩) ⟨accounted_run capacity [], hInit⟩ acts).2

/-! ## The claim about every state -/

/-- First come, first served, in a state after `enqueue_jobs` calls that made `calls`. -/
structure Fifo (capacity : Resource → Int) (calls : List (Resource × Request)) (s : Pool W) :
    Prop where
  /-- nothing overtakes, nothing is lost -/
  order : ∀ r, ofQueue r (dequeuedAll s.log) ++ (s.server.queue r).requests =
    ofQueue r (enqueuedAll s.log)
  /-- what was queued is what the calls made, up to the workers about to queue it -/
  called : ∀ p, p ∈ calls ↔ p ∈ enqueuedAll s.log ∨ ∃ w, s.worker w = .enqueue p.1 p.2
  distinct : (calls.map fun p => p.2.addr).Nodup
  once : ((enqueuedAll s.log).map fun p => p.2.addr).Nodup
  /-- the table holds what was recorded and not unlinked since -/
  table : s.server.tableNodejobs = tableOf s.log
  /-- the pools have what was not dequeued, or came back -/
  left : ∀ r, (s.server.queue r).resourcesLeft = leftOf capacity r s.log
  backed : ∀ log x l, s.log = log ++ x :: l → Backed log x
  allQueued : Quiescent s → (enqueuedAll s.log).Perm calls
  /-- one recording and one line for each request that left its queue, in this order -/
  served : Quiescent s → ∀ p ∈ dequeuedAll s.log, ∃ rj,
    recordings p.2.addr s.log = [recordingOf p rj] ∧ answers p.2.addr s.log = [answerOf p] ∧
      Before (recordingOf p rj) (answerOf p) s.log

/-- **FIFO service without loss or duplication.**  In every state that any workers
reach, each call of `enqueue_jobs` has queued its request once or is about to; the
requests dequeued so far followed by a queue's contents are the requests enqueued so far,
in order; and the pools and `table_nodejobs` are what was dequeued, recorded, unlinked
and credited.  When no worker is inside a handler every call has queued its request, and
each dequeued one was recorded exactly once, with its job id, socket, type and amount,
and was afterwards sent exactly one line, `GRANTED` with its job id to its socket. -/
theorem fifo_service (capacity : Resource → Int) (acts : List (Act W)) :
    Fifo capacity (requests (Pool.init capacity) acts)
      (run poolStep (Pool.init capacity) acts) := by
  obtain ⟨hAccounted, hBooked⟩ := booked_run capacity acts
  have hCalled := called_run capacity acts
  refine ⟨hAccounted.fifo, hCalled.mem, hCalled.nodup, hAccounted.distinct, hBooked.table,
    hBooked.left, hBooked.backed, fun hQuiet => ?_, fun hQuiet p hp => served_of_life ?_⟩
  · refine (List.perm_ext_iff_of_nodup (List.Nodup.of_map _ hAccounted.distinct)
      (List.Nodup.of_map _ hCalled.nodup)).mpr ?_
    intro p
    rw [hCalled.mem]
    refine (or_iff_left ?_).symm
    rintro ⟨w, hw⟩
    rw [hQuiet w] at hw
    cases hw
  · rcases hAccounted.served p hp with ⟨w, hw⟩ | hDone
    · simp [hQuiet w, viewOf] at hw
    · exact hDone

/-- Three peers ask two workers for a pool of four.  The second request is queued and
granted before the first, and the third waits behind that; a release lets both in. -/
def relayActs : List (Act Bool) :=
  contendedActs ++ [.call true (.enqueueJobs "cpu".toList 3 1 9)] ++
    List.replicate 7 (.go true none) ++ [.call false (.releaseClientByFd 8)] ++
    List.replicate 20 (.go false none)

/-- All three are dequeued, in the order they were queued, recorded and answered. -/
theorem fifo_service_relayed :
    Quiescent (run poolStep (Pool.init fun _ => 4) relayActs) ∧
      (dequeuedAll (run poolStep (Pool.init fun _ => 4) relayActs).log).map
        (fun p => (p.2.jobId, p.2.originSocket)) = [(2, 8), (1, 7), (3, 9)] ∧
      ∀ p ∈ dequeuedAll (run poolStep (Pool.init fun _ => 4) relayActs).log, ∃ rj,
        recordings p.2.addr (run poolStep (Pool.init fun _ => 4) relayActs).log =
            [recordingOf p rj] ∧
          answers p.2.addr (run poolStep (Pool.init fun _ => 4) relayActs).log =
            [answerOf p] ∧
          Before (recordingOf p rj) (answerOf p)
            (run poolStep (Pool.init fun _ => 4) relayActs).log := by
  have hQuiet : Quiescent (run poolStep (Pool.init fun _ => 4) relayActs) := by
    decide +kernel
  exact ⟨hQuiet, by decide +kernel, (fifo_service _ relayActs).served hQuiet⟩

end

end ResourceAgent.Ports.FifoService
