import Mathlib.Algebra.BigOperators.Group.Finset.Basic
import Mathlib.Data.Fintype.Basic
import ResourceAgent.Ports.Reservation
import ResourceAgent.Verified.Runs
import ResourceAgent.Verified.Snapshot

/-!
# Concurrent calls on the reservation records

`record_granted` finds the record of `(id, ip, port)`, adds an amount to a copy of it
and inserts the copy; `release_client_by_fd` unlinks the records of a socket in one scan
and gives their amounts back to the three pools one after the other.  A find, an insert,
the scan and each credit are critical sections of their own, and any number of workers
may be inside such calls at once.

A record inserted late overwrites what happened to it since the find.  As long as
nothing happens to it in between (`Alone`), the table and the pools end as if the calls
had run one after the other, in the order of their inserts and scans.
-/

namespace ResourceAgent.Ports.Linearity

open ResourceAgent.Ports.HashTable
open ResourceAgent.Ports.Records
open ResourceAgent.Ports.Reservation
open ResourceAgent.Verified.Runs
open ResourceAgent.Verified.Snapshot

/-! ## The calls, one at a time -/

inductive Call where
  /-- `record_granted(job_id, origin_socket, type, amount)`, with the answer of
  `getpeername` -/
  | record (g : Grant)
  /-- `release_client_by_fd(fd)` -/
  | release (fd : Int)
  deriving DecidableEq

/-- The bucket scan of `release_client_by_fd`. -/
def unlink (t : Table jobCallbacks) (fd : Int) : Table jobCallbacks :=
  if reservedOn t fd = [] then t
  else removeWhere t fun job => decide (job.originalSocket = fd)

/-- `table_nodejobs`, and the amounts returned to the pools. -/
abbrev Accounts := Table jobCallbacks × (Resource → Int)

/-- A call without interruption. -/
def complete (x : Accounts) : Call → Accounts
  | .record g => (g.record x.1, x.2)
  | .release fd => (unlink x.1 fd, fun r => x.2 r + totalGranted (reservedOn x.1 fd) r)

/-- The amount of a resource that a call records. -/
def amountOf (r : Resource) : Call → Int
  | .record g => if g.resource = r then g.req.amountRequested else 0
  | .release _ => 0

theorem totalGranted_unlink (t : Table jobCallbacks) (fd : Int) (r : Resource) :
    totalGranted (unlink t fd).toList r + totalGranted (reservedOn t fd) r =
      totalGranted t.toList r := by
  unfold unlink
  split
  · rename_i hNone
    rw [hNone]
    simp [totalGranted]
  · exact totalGranted_reservedOn t fd r

/-- Calls that run one after the other neither lose an amount nor count one twice. -/
theorem total_complete (order : List Call) (r : Resource) :
    ∀ x : Accounts,
      totalGranted (order.foldl complete x).1.toList r + (order.foldl complete x).2 r =
        totalGranted x.1.toList r + x.2 r + (order.map (amountOf r)).sum := by
  induction order with
  | nil => simp
  | cons c order ih =>
      intro x
      rw [List.foldl_cons, ih, List.map_cons, List.sum_cons]
      cases c with
      | record g =>
          have hRecord := totalGranted_record x.1 g r
          simp only [complete, amountOf]
          omega
      | release fd =>
          have hUnlink := totalGranted_unlink x.1 fd r
          simp only [complete, amountOf]
          omega

/-! ## The sections -/

/-- Where a worker is. -/
inductive Pc where
  | idle
  /-- in `record_granted`, before the insert of `rj` -/
  | insert (g : Grant) (rj : ReceivedJob)
  /-- in `release_client_by_fd`, before the credit of `r` -/
  | credit (r : Resource) (add : Resource → Int)

instance (pc : Pc) : Decidable (pc = .idle) :=
  match pc with
  | .idle => isTrue rfl
  | .insert _ _ => isFalse (fun h => nomatch h)
  | .credit _ _ => isFalse (fun h => nomatch h)

/-- The shared state and the workers; `begun` and `settled` list the calls in the order
in which they began, and in which they inserted or scanned. -/
structure Books (W : Type) where
  table : Table jobCallbacks
  returned : Resource → Int
  worker : W → Pc
  begun : List Call
  settled : List Call

def Books.start {W : Type} (t : Table jobCallbacks) : Books W :=
  ⟨t, fun _ => 0, fun _ => .idle, [], []⟩

inductive Act (W : Type) where
  /-- an idle worker makes a call and runs its first section -/
  | call (w : W) (c : Call)
  /-- a worker runs its next section -/
  | go (w : W)

/-- The credit that follows the one of `r`. -/
def afterCredit (add : Resource → Int) : Resource → Pc
  | .cpu => .credit .mem add
  | .mem => .credit .gpu add
  | .gpu => .idle

/-- The worker after the scan of `release_client_by_fd`. -/
def afterScan (t : Table jobCallbacks) (fd : Int) : Pc :=
  if reservedOn t fd = [] then .idle else .credit .cpu (totalGranted (reservedOn t fd))

section

variable {W : Type} [DecidableEq W]

def booksStep (b : Books W) : Act W → Books W
  | .call w c =>
      match b.worker w, c with
      | .idle, .record g =>
          { b with
            worker := Function.update b.worker w (.insert g (recordOf b.table g))
            begun := b.begun ++ [c] }
      | .idle, .release fd =>
          { b with
            table := unlink b.table fd
            worker := Function.update b.worker w (afterScan b.table fd)
            begun := b.begun ++ [c]
            settled := b.settled ++ [c] }
      | _, _ => b
  | .go w =>
      match b.worker w with
      | .idle => b
      | .insert g rj =>
          { b with
            table := tablahashInsert b.table rj
            worker := Function.update b.worker w .idle
            settled := b.settled ++ [.record g] }
      | .credit r add =>
          { b with
            returned := Function.update b.returned r (b.returned r + add r)
            worker := Function.update b.worker w (afterCredit add r) }

/-- Nothing happens to a record between the find and the insert of a call: no other
insert under its key, and no scan for the socket it is attributed to. -/
def Alone (b : Books W) : Act W → Prop
  | .call _ (.record _) => True
  | .call w (.release fd) => b.worker w = .idle → ∀ w' g rj, b.worker w' = .insert g rj →
      ∀ old ∈ tablahashFind b.table (grantKey g.peer g.req.jobId), old.originalSocket ≠ fd
  | .go w => ∀ g rj, b.worker w = .insert g rj → ∀ w', w' ≠ w → ∀ g' rj',
      b.worker w' = .insert g' rj' →
      jobCallbacks.same (grantKey g'.peer g'.req.jobId) (grantKey g.peer g.req.jobId) = false

end

/-! ## Looks and writes -/

/-- The two halves of the calls. -/
def scheme : Scheme (Table jobCallbacks) Call (Option ReceivedJob) where
  look
    | .record g, t => some (recordOf t g)
    | .release _, _ => none
  write
    | .record _, some rj, t => tablahashInsert t rj
    | .record _, none, t => t
    | .release fd, _, t => unlink t fd

/-- The look a worker has pending. -/
def pendingOf : Pc → Option (Call × Option ReceivedJob)
  | .insert g rj => some (.record g, some rj)
  | _ => none

/-- The books, as far as the table is concerned. -/
def shared {W : Type} (b : Books W) : Shared W (Table jobCallbacks) Call (Option ReceivedJob) :=
  ⟨b.table, fun w => pendingOf (b.worker w), b.settled⟩

theorem pendingOf_eq_some {pc : Pc} {x : Call × Option ReceivedJob} :
    pendingOf pc = some x ↔ ∃ g rj, pc = .insert g rj ∧ x = (.record g, some rj) := by
  cases pc <;> simp [pendingOf, eq_comm]

/-- A step of a worker that has nothing to insert. -/
theorem alone_go {W : Type} [DecidableEq W] {b : Books W} {w : W}
    (h : pendingOf (b.worker w) = none) : Alone b (.go w) := by
  intro g rj hw
  rw [hw] at h
  cases h

theorem fst_complete (order : List Call) :
    ∀ x : Accounts, (order.foldl complete x).1 = order.foldl scheme.whole x.1 := by
  induction order with
  | nil => intro x; rfl
  | cons c order ih =>
      intro x
      rw [List.foldl_cons, List.foldl_cons, ih]
      cases c <;> rfl

theorem recordOf_congr {t t' : Table jobCallbacks} {g : Grant}
    (h : tablahashFind t (grantKey g.peer g.req.jobId) =
      tablahashFind t' (grantKey g.peer g.req.jobId)) : recordOf t g = recordOf t' g := by
  rw [recordOf, recordOf, h]

/-- An insert under another key does not change what a call has found. -/
theorem recordOf_insert {t : Table jobCallbacks} {g g' : Grant}
    (h : jobCallbacks.same (grantKey g'.peer g'.req.jobId) (grantKey g.peer g.req.jobId) = false)
    (t' : Table jobCallbacks) :
    recordOf (tablahashInsert t (recordOf t' g)) g' = recordOf t g' := by
  refine recordOf_congr (find_congr fun e hSame => ?_)
  have hOther : jobCallbacks.same e (recordOf t' g) = false := by
    rw [recordOf_same]
    by_contra hNot
    rw [Bool.not_eq_false] at hNot
    rw [jobCallbacks.same_trans _ _ _ (by rw [jobCallbacks.same_symm]; exact hSame) hNot] at h
    cases h
  rw [mem_insert]
  constructor
  · rintro (rfl | ⟨hMem, -⟩)
    · rw [jobCallbacks.same_refl] at hOther
      cases hOther
    · exact hMem
  · intro hMem
    exact .inr ⟨hMem, hOther⟩

/-- Neither does a scan for another socket. -/
theorem recordOf_unlink {t : Table jobCallbacks} {g : Grant} {fd : Int}
    (h : ∀ old ∈ tablahashFind t (grantKey g.peer g.req.jobId), old.originalSocket ≠ fd) :
    recordOf (unlink t fd) g = recordOf t g := by
  unfold unlink
  split
  · rfl
  · refine recordOf_congr (find_congr fun e hSame => ?_)
    rw [toList_removeWhere, List.mem_filter]
    constructor
    · exact fun hMem => hMem.1
    · intro hMem
      refine ⟨hMem, ?_⟩
      simpa using h e ((find_eq_some_iff _ _ _).mpr ⟨hMem, hSame⟩)

section

variable {W : Type} [DecidableEq W] {b : Books W} {t : Table jobCallbacks}

omit [DecidableEq W] in
/-- What a worker is going to insert, if every call has seen what is there. -/
theorem current_insert (h : Sequential scheme t (shared b)) {w : W} {g : Grant} {rj : ReceivedJob}
    (hw : b.worker w = .insert g rj) : rj = recordOf b.table g := by
  have hSeen := h.current w (.record g) (some rj) (by simp [shared, pendingOf, hw])
  exact Option.some.inj hSeen

/-- The looks after a worker has moved. -/
theorem pending_update (w : W) (pc : Pc) :
    (fun w' => pendingOf (Function.update b.worker w pc w')) =
      Function.update (fun w' => pendingOf (b.worker w')) w (pendingOf pc) := by
  funext w'
  by_cases hw : w' = w
  · rw [hw, Function.update_self, Function.update_self]
  · rw [Function.update_of_ne hw, Function.update_of_ne hw]

/-- A worker that has no look pending moves to another such place. -/
theorem pending_same {w : W} {pc : Pc} (hOld : pendingOf (b.worker w) = none)
    (hNew : pendingOf pc = none) :
    (fun w' => pendingOf (Function.update b.worker w pc w')) =
      fun w' => pendingOf (b.worker w') := by
  rw [pending_update, hNew, ← hOld]
  exact Function.update_eq_self w fun w' => pendingOf (b.worker w')

theorem pendingOf_afterScan (t : Table jobCallbacks) (fd : Int) :
    pendingOf (afterScan t fd) = none := by
  unfold afterScan
  split <;> rfl

theorem pendingOf_afterCredit (add : Resource → Int) (r : Resource) :
    pendingOf (afterCredit add r) = none := by
  cases r <;> rfl

/-- The find of `record_granted`. -/
theorem shared_find {w : W} (hw : b.worker w = .idle) (g : Grant) :
    shared (booksStep b (.call w (.record g))) = move scheme (shared b) (.look w (.record g)) := by
  simp only [booksStep, hw, shared, move]
  rw [pending_update]
  rfl

/-- The scan of `release_client_by_fd`. -/
theorem shared_scan {w : W} (hw : b.worker w = .idle) (fd : Int) :
    shared (booksStep b (.call w (.release fd))) =
      move scheme (shared b) (.once (.release fd)) := by
  simp only [booksStep, hw, shared, move]
  rw [pending_same (by rw [hw]; rfl) (pendingOf_afterScan b.table fd)]
  rfl

/-- The insert of `record_granted`. -/
theorem shared_insert {w : W} {g : Grant} {rj : ReceivedJob} (hw : b.worker w = .insert g rj) :
    shared (booksStep b (.go w)) = move scheme (shared b) (.write w) := by
  have hPending : (shared b).pending w = some (.record g, some rj) := by
    show pendingOf (b.worker w) = _
    rw [hw]
    rfl
  simp only [move, hPending]
  simp only [booksStep, hw, shared]
  rw [pending_update]
  rfl

/-- **A step without interference keeps the table sequential.** -/
theorem sequential_step (h : Sequential scheme t (shared b)) {a : Act W} (hAlone : Alone b a) :
    Sequential scheme t (shared (booksStep b a)) := by
  cases a with
  | call w c =>
      cases hw : b.worker w with
      | idle =>
          cases c with
          | record g =>
              rw [shared_find hw]
              exact h.move trivial
          | release fd =>
              rw [shared_scan hw]
              refine h.move fun w' _ c seen hPending => ?_
              obtain ⟨g, rj, hw', hEq⟩ := pendingOf_eq_some.mp hPending
              cases hEq
              exact congrArg some (recordOf_unlink (hAlone hw w' g rj hw'))
      | insert g rj =>
          simp only [booksStep, hw]
          exact h
      | credit r add =>
          simp only [booksStep, hw]
          exact h
  | go w =>
      cases hw : b.worker w with
      | idle =>
          simp only [booksStep, hw]
          exact h
      | insert g rj =>
          rw [shared_insert hw]
          refine h.move fun c seen hPending w' hNe c' seen' hPending' => ?_
          obtain ⟨g₁, rj₁, hw₁, hEq⟩ := pendingOf_eq_some.mp hPending
          obtain ⟨g', rj', hw', hEq'⟩ := pendingOf_eq_some.mp hPending'
          cases hEq
          cases hEq'
          have hKey := hAlone g₁ rj₁ hw₁ w' (by simpa using hNe) g' rj' hw'
          show some (recordOf (tablahashInsert b.table rj₁) g') = some (recordOf b.table g')
          rw [current_insert h hw₁, recordOf_insert hKey]
      | credit r add =>
          have hSame : shared (booksStep b (.go w)) = shared b := by
            simp only [booksStep, hw, shared]
            rw [pending_same (by rw [hw]; rfl) (pendingOf_afterCredit add r)]
          rw [hSame]
          exact h

/-! ## Credits and calls under way -/

/-- What a worker has still to give back. -/
def owedBy (r : Resource) : Pc → Int
  | .credit r' add => if r'.rank ≤ r.rank then add r else 0
  | _ => 0

/-- The call a worker has begun and not settled. -/
def openCall : Pc → Multiset Call
  | .insert g _ => {.record g}
  | _ => 0

variable [Fintype W]

/-- A sum over the workers when one of them moves. -/
theorem sum_update {M : Type} [AddCommMonoid M] (f : Pc → M) (pcs : W → Pc) (w : W) (pc : Pc) :
    f (pcs w) + ∑ v, f (Function.update pcs w pc v) = f pc + ∑ v, f (pcs v) := by
  have hRest : ∑ v ∈ Finset.univ.erase w, f (Function.update pcs w pc v) =
      ∑ v ∈ Finset.univ.erase w, f (pcs v) := by
    refine Finset.sum_congr rfl fun v hv => ?_
    rw [Function.update_of_ne (Finset.ne_of_mem_erase hv)]
  rw [← Finset.add_sum_erase _ _ (Finset.mem_univ w), hRest, Function.update_self,
    ← Finset.add_sum_erase _ (fun v => f (pcs v)) (Finset.mem_univ w)]
  exact add_left_comm _ _ _

/-- Everything returned or still to be returned was unlinked, and every call is settled or
still under way. -/
structure Balanced (t : Table jobCallbacks) (b : Books W) : Prop where
  sequential : Sequential scheme t (shared b)
  returned : ∀ r, b.returned r + ∑ w, owedBy r (b.worker w) =
    (b.settled.foldl complete (t, fun _ => 0)).2 r
  calls : (b.begun : Multiset Call) = (b.settled : Multiset Call) + ∑ w, openCall (b.worker w)

omit [DecidableEq W] in
theorem balanced_start (t : Table jobCallbacks) : Balanced t (Books.start (W := W) t) where
  sequential := sequential_start t
  returned r := by simp [Books.start, owedBy]
  calls := by simp [Books.start, openCall]

theorem owedBy_afterScan (t : Table jobCallbacks) (fd : Int) (r : Resource) :
    owedBy r (afterScan t fd) = totalGranted (reservedOn t fd) r := by
  unfold afterScan
  split
  · rename_i hNone
    rw [hNone]
    rfl
  · cases r <;> rfl

theorem owedBy_credit (add : Resource → Int) (r r' : Resource) :
    owedBy r (.credit r' add) =
      owedBy r (afterCredit add r') + if r = r' then add r' else 0 := by
  cases r <;> cases r' <;> simp [owedBy, afterCredit, Resource.rank]

omit [DecidableEq W] in
theorem Balanced.table (h : Balanced t b) :
    (b.settled.foldl complete (t, fun _ => 0)).1 = b.table := by
  rw [fst_complete]
  exact h.sequential.memory.symm

/-- The books after a call has begun and a call has been settled. -/
theorem Balanced.advance (h : Balanced t b) {b' : Books W} {w : W} {pc : Pc}
    (began settles : List Call) (hSequential : Sequential scheme t (shared b'))
    (hWorker : b'.worker = Function.update b.worker w pc) (hBegun : b'.begun = b.begun ++ began)
    (hSettled : b'.settled = b.settled ++ settles)
    (hCalls : openCall (b.worker w) + (began : Multiset Call) =
      openCall pc + (settles : Multiset Call))
    (hReturned : ∀ r, b'.returned r + owedBy r pc +
      (b.settled.foldl complete (t, fun _ => 0)).2 r = b.returned r + owedBy r (b.worker w) +
        ((b.settled ++ settles).foldl complete (t, fun _ => 0)).2 r) : Balanced t b' := by
  refine ⟨hSequential, fun r => ?_, ?_⟩
  · have hSum := sum_update (owedBy r) b.worker w pc
    have hOld := h.returned r
    have hNew := hReturned r
    rw [hWorker, hSettled]
    omega
  · have hSum := sum_update openCall b.worker w pc
    have hOld := h.calls
    rw [hWorker, hBegun, hSettled, ← Multiset.coe_add, ← Multiset.coe_add, hOld]
    refine add_left_cancel (a := openCall pc) ?_
    calc openCall pc + (↑b.settled + ∑ v, openCall (b.worker v) + ↑began)
        = ↑b.settled + (openCall pc + ∑ v, openCall (b.worker v)) + ↑began := by ac_rfl
      _ = ↑b.settled + ∑ v, openCall (Function.update b.worker w pc v) +
            (openCall (b.worker w) + ↑began) := by rw [← hSum]; ac_rfl
      _ = openCall pc + (↑b.settled + ↑settles +
            ∑ v, openCall (Function.update b.worker w pc v)) := by rw [hCalls]; ac_rfl

theorem Balanced.step (h : Balanced t b) {a : Act W} (hAlone : Alone b a) :
    Balanced t (booksStep b a) := by
  have hSequential := sequential_step h.sequential hAlone
  cases a with
  | call w c =>
      cases hw : b.worker w with
      | idle =>
          cases c with
          | record g =>
              simp only [booksStep, hw] at hSequential ⊢
              refine h.advance [.record g] [] hSequential rfl rfl (by simp) ?_ fun r => ?_
              · rw [hw]
                simp [openCall]
              · rw [hw, List.append_nil]
                rfl
          | release fd =>
              simp only [booksStep, hw] at hSequential ⊢
              refine h.advance [.release fd] [.release fd] hSequential rfl rfl rfl ?_ fun r => ?_
              · rw [hw]
                unfold afterScan
                split <;> rfl
              · rw [hw, List.foldl_append, owedBy_afterScan]
                simp only [List.foldl_cons, List.foldl_nil, complete, h.table, owedBy]
                omega
      | insert g rj =>
          simp only [booksStep, hw]
          exact h
      | credit r add =>
          simp only [booksStep, hw]
          exact h
  | go w =>
      cases hw : b.worker w with
      | idle =>
          simp only [booksStep, hw]
          exact h
      | insert g rj =>
          simp only [booksStep, hw] at hSequential ⊢
          refine h.advance [] [.record g] hSequential rfl (by simp) rfl ?_ fun r => ?_
          · rw [hw]
            simp [openCall]
          · rw [hw, List.foldl_append]
            rfl
      | credit r' add =>
          simp only [booksStep, hw] at hSequential ⊢
          refine h.advance [] [] hSequential rfl (by simp) (by simp) ?_ fun r => ?_
          · rw [hw]
            cases r' <;> rfl
          · rw [hw, List.append_nil, owedBy_credit]
            by_cases hr : r = r'
            · subst hr
              simp only [Function.update_self, if_true]
              omega
            · simp only [Function.update_of_ne hr, if_neg hr]
              omega

omit [DecidableEq W] in
/-- When no worker is inside a call, every call that has begun is settled. -/
theorem Balanced.settled_perm (h : Balanced t b) (hIdle : ∀ w, b.worker w = .idle) :
    b.settled.Perm b.begun := by
  have hNone : ∑ w, openCall (b.worker w) = 0 := by
    refine Finset.sum_eq_zero fun w _ => ?_
    rw [hIdle w]
    rfl
  have hCalls := h.calls
  rw [hNone, add_zero] at hCalls
  exact (Multiset.coe_eq_coe.mp hCalls).symm

omit [DecidableEq W] in
theorem Balanced.accounts (h : Balanced t b) (hIdle : ∀ w, b.worker w = .idle) :
    b.settled.foldl complete (t, fun _ => 0) = (b.table, b.returned) := by
  refine Prod.ext h.table (funext fun r => ?_)
  have hNone : ∑ w, owedBy r (b.worker w) = 0 := by
    refine Finset.sum_eq_zero fun w _ => ?_
    rw [hIdle w]
    rfl
  have hReturned := h.returned r
  rw [hNone, add_zero] at hReturned
  exact hReturned.symm

end

/-- The books hold every amount once, granted or returned. -/
def AccountedFor {W : Type} (t : Table jobCallbacks) (b : Books W) : Prop :=
  ∀ r, totalGranted b.table.toList r + b.returned r =
    totalGranted t.toList r + (b.begun.map (amountOf r)).sum

/-- The books are those of some sequential order of the calls begun. -/
def Linearized {W : Type} (t : Table jobCallbacks) (b : Books W) : Prop :=
  ∃ order : List Call, order.Perm b.begun ∧
    (b.table, b.returned) = order.foldl complete (t, fun _ => 0)

theorem Linearized.accountedFor {W : Type} {t : Table jobCallbacks} {b : Books W}
    (h : Linearized t b) : AccountedFor t b := by
  obtain ⟨order, hPerm, hAccounts⟩ := h
  intro r
  have hTotal := total_complete order r (t, fun _ => 0)
  rw [← hAccounts, (hPerm.map (amountOf r)).sum_eq] at hTotal
  simpa using hTotal

/-- **Linearizability.**  Any number of workers make calls and run their sections in any
order.  If nothing happens to a record between the find and the insert of a call on it,
then, once no call is under way, the table and the amounts returned are those of a
sequential order of the calls: every amount granted is in the table or returned, and none
is in both. -/
theorem concurrent_calls_linearize {W : Type} [DecidableEq W] [Fintype W]
    (t : Table jobCallbacks) (acts : List (Act W))
    (hAlone : Meets booksStep Alone (Books.start t) acts)
    (hIdle : ∀ w, (run booksStep (Books.start t) acts).worker w = .idle) :
    Linearized t (run booksStep (Books.start t) acts) ∧
      AccountedFor t (run booksStep (Books.start t) acts) := by
  have hBalanced : Balanced t (run booksStep (Books.start t) acts) :=
    run_invariant (Balanced t) (fun b a h hStep => h.step hStep) (balanced_start t) hAlone
  have hLinearized : Linearized t (run booksStep (Books.start t) acts) :=
    ⟨_, hBalanced.settled_perm hIdle, (hBalanced.accounts hIdle).symm⟩
  exact ⟨hLinearized, hLinearized.accountedFor⟩

/-- `record_granted` for two units of `r`, asked for on socket 5 from one address. -/
def grantOn (jobId : Int) (r : Resource) : Grant := ⟨r, ⟨1, jobId, 5, 2⟩, some (7, 9)⟩

/-- Two jobs are recorded side by side, and one of them is released with the other. -/
def apart : List (Act Bool) :=
  [.call false (.record (grantOn 1 .cpu)), .call true (.record (grantOn 2 .cpu)), .go true,
    .go false, .call false (.release 5), .go false, .go false, .go false]

theorem meets_apart : Meets booksStep Alone (Books.start (tablahashCreate _)) apart := by
  refine ⟨trivial, trivial, ?_, ?_, ?_, alone_go (by decide +kernel),
    alone_go (by decide +kernel), alone_go (by decide +kernel), trivial⟩
  · intro g rj hw w' hNe g' rj' hw'
    obtain rfl : w' = false := by simpa using hNe
    cases hw
    cases hw'
    decide
  · intro g rj hw w' hNe g' rj' hw'
    obtain rfl : w' = true := by simpa using hNe
    cases hw'
  · intro _ w' g rj hw'
    cases w' <;> cases hw'

theorem concurrent_calls_linearize_apart :
    Meets booksStep Alone (Books.start (tablahashCreate _)) apart ∧
    (∀ w, (run booksStep (Books.start (tablahashCreate _)) apart).worker w = .idle) ∧
    Linearized (tablahashCreate _) (run booksStep (Books.start (tablahashCreate _)) apart) ∧
    AccountedFor (tablahashCreate _) (run booksStep (Books.start (tablahashCreate _)) apart) := by
  have hIdle : ∀ w, (run booksStep (Books.start (tablahashCreate _)) apart).worker w = .idle := by
    decide +kernel
  exact ⟨meets_apart, hIdle, concurrent_calls_linearize _ _ meets_apart hIdle⟩

/-- Two drains record amounts of one job under the same key. -/
def overwriting : List (Act Bool) :=
  [.call false (.record (grantOn 1 .cpu)), .call true (.record (grantOn 1 .mem)), .go false,
    .go true]

/-- The socket is released between the find and the insert of a second grant. -/
def reviving : List (Act Bool) :=
  [.call false (.record (grantOn 1 .cpu)), .go false, .call false (.record (grantOn 1 .mem)),
    .call true (.release 5), .go true, .go true, .go true, .go false]

/-- The books after a run that starts with an empty table. -/
def fromEmpty (acts : List (Act Bool)) : Books Bool :=
  run booksStep (Books.start (tablahashCreate _)) acts

/-- The first run loses the amount of one grant; the second one returns an amount to its
pool and leaves it granted.  Neither is the outcome of a sequential order. -/
theorem late_insert_is_not_sequential :
    (∀ acts ∈ [overwriting, reviving],
      (∀ w, (fromEmpty acts).worker w = .idle) ∧
        ¬ Linearized (tablahashCreate _) (fromEmpty acts)) ∧
    totalGranted (fromEmpty overwriting).table.toList .cpu = 0 ∧
    totalGranted (fromEmpty reviving).table.toList .cpu = 2 ∧
    (fromEmpty reviving).returned .cpu = 2 := by
  have hOverwritten : totalGranted (fromEmpty overwriting).table.toList .cpu = 0 := by
    decide +kernel
  have hRevived : totalGranted (fromEmpty reviving).table.toList .cpu = 2 := by
    decide +kernel
  have hReturned : (fromEmpty reviving).returned .cpu = 2 := by
    decide +kernel
  refine ⟨?_, hOverwritten, hRevived, hReturned⟩
  intro acts hActs
  obtain rfl | rfl := List.mem_pair.mp hActs
  · refine ⟨by decide +kernel, fun h => ?_⟩
    have hSum := h.accountedFor .cpu
    rw [hOverwritten] at hSum
    revert hSum
    decide +kernel
  · refine ⟨by decide +kernel, fun h => ?_⟩
    have hSum := h.accountedFor .cpu
    rw [hRevived, hReturned] at hSum
    revert hSum
    decide +kernel

end ResourceAgent.Ports.Linearity
