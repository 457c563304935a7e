import Mathlib.Data.Fintype.Basic
import ResourceAgent.Ports.EventLoop
import ResourceAgent.Ports.Ownership

/-!
# Line buffers and reused descriptors

The line buffers of `read_until_newline` are indexed by descriptor and outlive the
connections.  A buffer belongs to one connection only if it is empty whenever a
connection is opened on its number.  The disconnect branches see to that with
`clear_connection_buffer`; `release_resources`, JOB_RELEASE and the timeout sweep
close descriptors without it.

`Tracked` is the invariant: the bytes in a buffer are the last ones heard on the
connection last opened there, and the buffer of a closed descriptor is empty
unless some worker still has to clear it.  It survives every step that ends a job
whose connections have nothing in their buffers (`Clean`), by any number of workers.
-/

namespace ResourceAgent.Ports.LineBuffers

open ResourceAgent.Ports.HashTable
open ResourceAgent.Ports.Records
open ResourceAgent.Ports.Wire
open ResourceAgent.Ports.Client
open ResourceAgent.Ports.Reservation
open ResourceAgent.Ports.Framing
open ResourceAgent.Ports.EventLoop
open ResourceAgent.Ports.Ownership
open ResourceAgent.Ports.Replacement
open ResourceAgent.Verified.CText
open ResourceAgent.Verified.CBuffer
open ResourceAgent.Verified.Runs

/-! ## Whose bytes are in a buffer -/

/-- `owed fd`: some worker has closed `fd` and will clear its buffer. -/
structure Tracked (k : Kernel) (connections : Buffers) (heard : Nat → Text) (owed : Int → Prop) :
    Prop where
  numbered : ∀ fd c, k.last fd = some c → c < k.opened
  distinct : ∀ fd fd' c, k.last fd = some c → k.last fd' = some c → fd = fd'
  files : ∀ fd c, k.files fd = some c → k.last fd = some c
  bytes : ∀ fd, (∃ c, k.last fd = some c ∧ (connections fd).pending <:+ heard c) ∨
    (k.last fd = none ∧ (connections fd).pending = [])
  clean : ∀ fd, k.files fd = none → (connections fd).pending ≠ [] → owed fd
  range : ∀ fd, fd < 0 ∨ maxFds ≤ fd → (connections fd).pending = []

theorem pending_eq_nil {c : Connection} : c.pending = [] ↔ c.accumulatedBytes = 0 := by
  rw [← c.length_pending, List.length_eq_zero_iff]

/-- What the buffers ask of an effect: only an empty buffer, or one that will be cleared,
loses its connection, and only an empty one gets a new connection. -/
def Allowed (connections : Buffers) (owed : Int → Prop) : Effect → Prop
  | .close fd => (connections fd).pending = [] ∨ owed fd
  | .connect fd _ _ => (connections fd).pending = []
  | _ => True

section

variable {k : Kernel} {connections : Buffers} {heard : Nat → Text} {owed : Int → Prop}

theorem Tracked.mono (h : Tracked k connections heard owed) {owed' : Int → Prop}
    (hOwed : ∀ fd, owed fd → owed' fd) : Tracked k connections heard owed' :=
  { h with clean := fun fd hFile hBytes => hOwed fd (h.clean fd hFile hBytes) }

theorem Tracked.openFile (h : Tracked k connections heard owed) {fd : Int}
    (hEmpty : (connections fd).pending = []) : Tracked (k.openFile fd) connections heard owed := by
  have hLast : ∀ fd' c, (k.openFile fd).last fd' = some c →
      (fd' = fd ∧ c = k.opened) ∨ (fd' ≠ fd ∧ k.last fd' = some c) := by
    intro fd' c hc
    by_cases hFd : fd' = fd
    · rw [hFd, k.last_openFile_self, Option.some.injEq] at hc
      exact .inl ⟨hFd, hc.symm⟩
    · rw [k.last_openFile_of_ne hFd] at hc
      exact .inr ⟨hFd, hc⟩
  constructor
  · intro fd' c hc
    show c < k.opened + 1
    rcases hLast fd' c hc with ⟨-, rfl⟩ | ⟨-, hc⟩
    · omega
    · have := h.numbered fd' c hc
      omega
  · intro fd' fd'' c hc hc'
    rcases hLast fd' c hc with ⟨rfl, rfl⟩ | ⟨-, hc⟩
    · rcases hLast fd'' _ hc' with ⟨rfl, -⟩ | ⟨-, hc'⟩
      · rfl
      · exact absurd (h.numbered fd'' _ hc') (Nat.lt_irrefl _)
    · rcases hLast fd'' c hc' with ⟨-, rfl⟩ | ⟨-, hc'⟩
      · exact absurd (h.numbered fd' _ hc) (Nat.lt_irrefl _)
      · exact h.distinct fd' fd'' c hc hc'
  · intro fd' c hc
    by_cases hFd : fd' = fd
    · rw [hFd, k.files_openFile_self] at hc
      rw [hFd, k.last_openFile_self]
      exact hc
    · rw [k.files_openFile_of_ne hFd] at hc
      rw [k.last_openFile_of_ne hFd]
      exact h.files fd' c hc
  · intro fd'
    by_cases hFd : fd' = fd
    · rw [hFd, hEmpty]
      exact .inl ⟨k.opened, k.last_openFile_self fd, List.nil_suffix⟩
    · rw [k.last_openFile_of_ne hFd]
      exact h.bytes fd'
  · intro fd' hFile hBytes
    have hFd : fd' ≠ fd := by
      rintro rfl
      exact hBytes hEmpty
    rw [k.files_openFile_of_ne hFd] at hFile
    exact h.clean fd' hFile hBytes
  · exact h.range

theorem Tracked.closeFile (h : Tracked k connections heard owed) {fd : Int}
    (hEmpty : (connections fd).pending = [] ∨ owed fd) :
    Tracked (k.closeFile fd) connections heard owed where
  numbered := h.numbered
  distinct := h.distinct
  files fd' c hc := by
    by_cases hFd : fd' = fd
    · rw [hFd, k.files_closeFile_self] at hc
      cases hc
    · rw [k.files_closeFile_of_ne hFd] at hc
      exact h.files fd' c hc
  bytes := h.bytes
  clean fd' hFile hBytes := by
    by_cases hFd : fd' = fd
    · subst hFd
      exact hEmpty.resolve_left hBytes
    · rw [k.files_closeFile_of_ne hFd] at hFile
      exact h.clean fd' hFile hBytes
  range := h.range

theorem Tracked.perform (h : Tracked k connections heard owed) {e : Effect}
    (hAllowed : Allowed connections owed e) : Tracked (k.perform e) connections heard owed := by
  cases e with
  | close fd => exact h.closeFile hAllowed
  | connect fd jobId req => exact h.openFile hAllowed
  | _ => exact ⟨h.numbered, h.distinct, h.files, h.bytes, h.clean, h.range⟩

theorem Tracked.performAll (h : Tracked k connections heard owed) {out : List Effect}
    (hAllowed : ∀ e ∈ out, Allowed connections owed e) :
    Tracked (k.performAll out) connections heard owed := by
  induction out generalizing k with
  | nil => exact h
  | cons e out ih =>
      exact ih (h.perform (hAllowed e (by simp))) fun x hx => hAllowed x (by simp [hx])

/-- The buffer of a descriptor that is free, and that no worker has still to clear. -/
theorem Tracked.empty (h : Tracked k connections heard owed) {fd : Int}
    (hFile : k.files fd = none) (hOwed : ¬ owed fd) : (connections fd).pending = [] := by
  by_contra hBytes
  exact hOwed (h.clean fd hFile hBytes)

end

/-! ## One call of `read_until_newline` -/

/-- The bytes of the line returned and those left in the buffer are bytes that were in
the buffer or have been received. -/
theorem readPending_split (env : Env) (pending : Text) :
    ∃ kept, kept <:+ pending ∧
      (readPending (Process.receive env) [] pending).2.2.lines.flatten ++
          (readPending (Process.receive env) [] pending).2.1 =
        kept ++ (readPending (Process.receive env) [] pending).1 := by
  unfold readPending
  cases hFound : strchr '\n' pending with
  | some i =>
      refine ⟨pending, List.suffix_refl _, ?_⟩
      simp only [Reading.lines, List.flatten_singleton, List.take_append_drop, List.append_nil]
  | none =>
      obtain ⟨kept, hKept⟩ : ∃ kept, (if pending.length = 1023 then [] else pending) = kept :=
        ⟨_, rfl⟩
      have hSuffix : kept <:+ pending := by
        rw [← hKept]
        split
        · exact List.nil_suffix
        · exact List.suffix_refl _
      simp only [hKept]
      refine ⟨kept, hSuffix, ?_⟩
      cases hRecv : env.recv with
      | eof => simp [Process.receive, hRecv, Reading.lines]
      | again => simp [Process.receive, hRecv, Reading.lines]
      | error => simp [Process.receive, hRecv, Reading.lines]
      | data bytes =>
          simp only [Process.receive, hRecv, List.take_take, Nat.min_self]
          cases strchr '\n' (kept ++ bytes.take (1023 - kept.length)) with
          | none => simp [Reading.lines]
          | some i =>
              simp only [Reading.lines, List.flatten_singleton, List.take_append_drop]

/-- Nothing is received from a descriptor that is not open. -/
theorem readPending_error {env : Env} (hError : env.recv = .error) (pending : Text) :
    (readPending (Process.receive env) [] pending).1 = [] := by
  unfold readPending
  cases strchr '\n' pending with
  | some i => rfl
  | none => simp [Process.receive, hError]

section

variable {W : Type} {p : Process W} {fd : Int} {env : Env}

theorem read_of_ne {fd' : Int} (h : fd' ≠ fd) : (p.read fd env).2.1 fd' = p.connections fd' := by
  unfold Process.read readUntilNewline
  split
  · rfl
  · exact Function.update_of_ne h ..

/-- **What a call does to the buffer it reads.** -/
theorem read_split (p : Process W) (fd : Int) (env : Env) :
    ∃ kept, kept <:+ (p.connections fd).pending ∧
      (p.read fd env).2.2.lines.flatten ++ ((p.read fd env).2.1 fd).pending =
        kept ++ (p.read fd env).1 := by
  unfold Process.read readUntilNewline
  split
  · exact ⟨_, List.suffix_refl _, by simp [Reading.lines]⟩
  · obtain ⟨kept, hSuffix, hSplit⟩ := readPending_split env (p.connections fd).pending
    rw [← readLine_pending] at hSplit
    refine ⟨kept, hSuffix, ?_⟩
    simp only [Function.update_self]
    exact hSplit

theorem read_error (hError : env.recv = .error) : (p.read fd env).1 = [] := by
  unfold Process.read readUntilNewline
  split
  · rfl
  · have hNothing := readPending_error hError (p.connections fd).pending
    rw [← readLine_pending] at hNothing
    exact hNothing

/-- An empty buffer and nothing to receive. -/
theorem read_closed (hEmpty : (p.connections fd).pending = []) (hError : env.recv = .error) :
    (p.read fd env).2.2 = .closed := by
  unfold Process.read readUntilNewline
  split
  · rfl
  · have hReading := readLine_pending (Process.receive env) [] (p.connections fd)
    rw [hEmpty] at hReading
    have hNone : (readPending (Process.receive env) [] []).2.2 = .closed := by
      simp [readPending, strchr, Process.receive, hError]
    rw [← hReading] at hNone
    exact hNone

theorem read_range {fd' : Int} (h : fd' < 0 ∨ maxFds ≤ fd') :
    (p.read fd env).2.1 fd' = p.connections fd' := by
  by_cases hFd : fd' = fd
  · subst hFd
    rw [Process.read, readUntilNewline, if_pos h]
  · exact read_of_ne hFd

/-- What is left in the buffer is the end of what was there and what was received. -/
theorem pending_read_suffix (p : Process W) (fd : Int) (env : Env) :
    ((p.read fd env).2.1 fd).pending <:+ (p.connections fd).pending ++ (p.read fd env).1 := by
  obtain ⟨kept, hSuffix, hSplit⟩ := read_split p fd env
  have hLeft : ((p.read fd env).2.1 fd).pending <:+ kept ++ (p.read fd env).1 := ⟨_, hSplit⟩
  obtain ⟨dropped, hDropped⟩ := hSuffix
  rw [← hDropped, List.append_assoc]
  exact hLeft.trans (List.suffix_append _ _)

/-- A line is among what was in the buffer and what was received. -/
theorem line_within {text : Text} (h : (p.read fd env).2.2 = .line text) :
    text <:+: (p.connections fd).pending ++ (p.read fd env).1 := by
  obtain ⟨kept, ⟨dropped, hDropped⟩, hSplit⟩ := read_split p fd env
  rw [h, Reading.lines, List.flatten_singleton] at hSplit
  refine ⟨dropped, ((p.read fd env).2.1 fd).pending, ?_⟩
  rw [← hDropped, List.append_assoc, hSplit, List.append_assoc]

end

/-! ## The workers -/

section

variable {W : Type} [DecidableEq W]

/-- Worker `w` has closed `fd` in a disconnect branch, and clears its buffer next. -/
def Clearing (p : Process W) (w : W) (fd : Int) : Prop :=
  p.handler w = .leaving fd ∨ (p.handler w = .leavingErlang ∧ fd = p.erlangfd)

instance (p : Process W) (w : W) (fd : Int) : Decidable (Clearing p w fd) :=
  inferInstanceAs (Decidable (p.handler w = .leaving fd ∨
    (p.handler w = .leavingErlang ∧ fd = p.erlangfd)))

def Owed (p : Process W) (fd : Int) : Prop := ∃ w, Clearing p w fd

/-- The buffers of the process are tracked. -/
def Sorted (p : Process W) : Prop := Tracked p.kernel p.connections p.heard (Owed p)

omit [DecidableEq W] in
theorem sorted_init (capacity : Resource → Int) : Sorted (Process.init (W := W) capacity) where
  numbered fd c hc := by cases hc
  distinct fd fd' c hc := by cases hc
  files fd c hc := by cases hc
  bytes fd := .inr ⟨rfl, rfl⟩
  clean fd _ hBytes := absurd rfl hBytes
  range fd _ := rfl

variable {p : Process W}

/-- A worker that does not clear `fd` goes on. -/
theorem owed_setHandler {w : W} {fd : Int} (h : ¬ Clearing p w fd) (next : Handler)
    (hOwed : Owed p fd) : Owed (p.setHandler w next) fd := by
  obtain ⟨w', hw'⟩ := hOwed
  have hNe : w' ≠ w := by
    rintro rfl
    exact h hw'
  have hSame : (p.setHandler w next).handler w' = p.handler w' := Function.update_of_ne hNe ..
  refine ⟨w', ?_⟩
  rw [Clearing, hSame]
  exact hw'

omit [DecidableEq W] in
/-- What was heard on the connection last opened on `fd`, with what is received now. -/
theorem Sorted.heard_hear (h : Sorted p) {fd : Int} {env : Env}
    (hRecv : p.kernel.files fd = none → env.recv = .error) {c : Nat}
    (hc : p.kernel.last fd = some c) :
    (p.hear fd env).heard c = p.heard c ++ (p.read fd env).1 := by
  cases hFile : p.kernel.files fd with
  | none =>
      simp only [Process.hear, hFile]
      rw [read_error (hRecv hFile), List.append_nil]
  | some c' =>
      have hSame : c = c' := by
        have hLast := h.files fd c' hFile
        rw [hc, Option.some.injEq] at hLast
        exact hLast
      simp only [Process.hear, hFile, hSame, Function.update_self]

omit [DecidableEq W] in
theorem Sorted.files_eq_none (h : Sorted p) {fd : Int} (hLast : p.kernel.last fd = none) :
    p.kernel.files fd = none := by
  cases hFile : p.kernel.files fd with
  | none => rfl
  | some c =>
      rw [h.files fd c hFile] at hLast
      cases hLast

omit [DecidableEq W] in
/-- **A call of `read_until_newline` keeps the buffers apart.** -/
theorem Sorted.hear (h : Sorted p) {fd : Int} {env : Env}
    (hRecv : p.kernel.files fd = none → env.recv = .error) : Sorted (p.hear fd env) := by
  have hSuffix := pending_read_suffix p fd env
  have hOther : ∀ c, p.kernel.last fd ≠ some c → (p.hear fd env).heard c = p.heard c := by
    intro c hc
    cases hFile : p.kernel.files fd with
    | none => simp only [Process.hear, hFile]
    | some c' =>
        have hNe : c ≠ c' := by
          rintro rfl
          exact hc (h.files fd c hFile)
        simp only [Process.hear, hFile, Function.update_of_ne hNe]
  refine ⟨h.numbered, h.distinct, h.files, fun fd' => ?_, fun fd' hFile hBytes => ?_,
    fun fd' hRange => ?_⟩
  · show (∃ c, p.kernel.last fd' = some c ∧ ((p.read fd env).2.1 fd').pending <:+
      (p.hear fd env).heard c) ∨ (p.kernel.last fd' = none ∧ ((p.read fd env).2.1 fd').pending = [])
    by_cases hFd : fd' = fd
    · subst hFd
      rcases h.bytes fd' with ⟨c, hc, hOld⟩ | ⟨hNone, hOld⟩
      · refine .inl ⟨c, hc, ?_⟩
        rw [h.heard_hear hRecv hc]
        obtain ⟨before, hBefore⟩ := hOld
        rw [← hBefore, List.append_assoc]
        exact hSuffix.trans (List.suffix_append _ _)
      · rw [hOld, read_error (hRecv (h.files_eq_none hNone))] at hSuffix
        exact .inr ⟨hNone, List.suffix_nil.mp hSuffix⟩
    · rw [read_of_ne hFd]
      rcases h.bytes fd' with ⟨c, hc, hOld⟩ | hNone
      · refine .inl ⟨c, hc, ?_⟩
        rw [hOther c fun hSame => hFd (h.distinct fd' fd c hc hSame)]
        exact hOld
      · exact .inr hNone
  · refine h.clean fd' hFile fun hOld => hBytes ?_
    show ((p.read fd env).2.1 fd').pending = []
    by_cases hFd : fd' = fd
    · subst hFd
      have hClosed : p.kernel.files fd' = none := hFile
      rw [hOld, read_error (hRecv hClosed)] at hSuffix
      exact List.suffix_nil.mp hSuffix
    · rw [read_of_ne hFd]
      exact hOld
  · show ((p.read fd env).2.1 fd').pending = []
    rw [read_range hRange]
    exact h.range fd' hRange

omit [DecidableEq W] in
/-- The line handed to a handler consists of bytes heard on the connection last opened
on the descriptor it was read from. -/
theorem Sorted.line (h : Sorted p) {fd : Int} {env : Env} {text : Text}
    (hRecv : p.kernel.files fd = none → env.recv = .error)
    (hLine : (p.read fd env).2.2 = .line text) :
    ∃ c, p.kernel.last fd = some c ∧ text <:+: (p.hear fd env).heard c := by
  rcases h.bytes fd with ⟨c, hc, before, hBefore⟩ | ⟨hNone, hEmpty⟩
  · refine ⟨c, hc, ?_⟩
    rw [h.heard_hear hRecv hc, ← hBefore, List.append_assoc]
    exact (line_within hLine).trans (List.suffix_append _ _).isInfix
  · rw [read_closed hEmpty (hRecv (h.files_eq_none hNone))] at hLine
    cases hLine

end

/-! ## Which descriptors the handlers close and open -/

/-- The descriptors `release_resources(job)` closes. -/
def releasedOn (job : LocalJob) : List Int :=
  (job.grantedReqs.map PendingResource.providerFd).filter fun fd => 0 ≤ fd

/-- The descriptor of a request in flight that JOB_RELEASE and the timeout sweep close. -/
def tornOn (s : ClientState) (job : LocalJob) : List Int :=
  if 0 ≤ job.originSocket ∧ (s.findEntry job.originSocket).isSome then [job.originSocket] else []

/-- The descriptors closed on behalf of the job that a step ends, if it ends one. -/
def endsOn (s : ClientState) : Handler → Reading → List Int
  | .sweep (id :: _), _ => ((s.findJob id).map fun job => tornOn s job ++ releasedOn job).getD []
  | .erlang _, .line text =>
      match parseErlang text with
      | .jobRelease jobId =>
          ((s.findJob (atoi jobId)).map fun job => tornOn s job ++ releasedOn job).getD []
      | _ => []
  | .remote fd, .line text =>
      if parseRemote text = .reject then ((s.owner fd).map releasedOn).getD [] else []
  | .remote fd, .closed => ((s.owner fd).map releasedOn).getD []
  | _, _ => []

/-- The descriptor of a dial gets a connection only with an empty buffer. -/
def DialAllowed (connections : Buffers) (owed : Int → Prop) : Dial → Prop
  | .noSocket => True
  | .connectFails fd => (connections fd).pending = [] ∨ owed fd
  | .epollFails fd => (connections fd).pending = []
  | .connected fd => (connections fd).pending = []

section

variable {connections : Buffers} {owed : Int → Prop} {s : ClientState} {job : LocalJob}

theorem allowed_toErlang (instruction : Instruction) (jobId : Text) :
    ∀ e ∈ cToErlang instruction jobId, Allowed connections owed e := by
  intro e he
  unfold cToErlang at he
  split at he
  · cases he
  · rw [List.mem_singleton.mp he]
    trivial

theorem allowed_released (h : ∀ fd ∈ releasedOn job, (connections fd).pending = []) :
    ∀ e ∈ (releaseResources s job).2, Allowed connections owed e := by
  intro e he
  obtain ⟨granted, hGranted, he⟩ := List.mem_flatMap.mp he
  unfold releaseProvider at he
  split at he
  · rename_i hFd
    simp only [List.mem_cons, List.not_mem_nil, or_false] at he
    rcases he with rfl | rfl | rfl
    · trivial
    · trivial
    · refine .inl (h _ (List.mem_filter.mpr ⟨List.mem_map_of_mem hGranted, ?_⟩))
      simpa using hFd
  · cases he

theorem allowed_torn (h : ∀ fd ∈ tornOn s job, (connections fd).pending = []) :
    ∀ e ∈ (tearDown s job).2, Allowed connections owed e := by
  intro e he
  unfold tearDown at he
  split at he
  · rename_i hTorn
    simp only [List.mem_cons, List.not_mem_nil, or_false] at he
    rcases he with rfl | rfl
    · trivial
    · exact .inl (h _ (by rw [tornOn, if_pos hTorn]; exact List.mem_singleton_self _))
  · cases he

theorem allowed_ask {dial : Dial} (h : DialAllowed connections owed dial) :
    ∀ e ∈ (askForNextResource dial s job).2, Allowed connections owed e := by
  intro e he
  unfold askForNextResource at he
  split at he
  · exact allowed_toErlang _ _ e he
  · cases dial with
    | noSocket => cases he
    | connectFails fd =>
        rw [List.mem_singleton.mp he]
        exact h
    | epollFails fd =>
        simp only [List.mem_cons, List.not_mem_nil, or_false] at he
        rcases he with rfl | rfl
        · exact h
        · exact .inl h
    | connected fd =>
        simp only [List.mem_cons, List.not_mem_nil, or_false] at he
        rcases he with rfl | rfl
        · exact h
        · trivial

theorem allowed_append {out out' : List Effect} (h : ∀ e ∈ out, Allowed connections owed e)
    (h' : ∀ e ∈ out', Allowed connections owed e) :
    ∀ e ∈ out ++ out', Allowed connections owed e := by
  intro e he
  rcases List.mem_append.mp he with he | he
  · exact h e he
  · exact h' e he

/-- A job is rejected, by a line or by the end of its connection. -/
theorem allowed_reject {fd : Int} {instruction : Instruction} {jobId : Text}
    (h : ∀ fd ∈ releasedOn job, (connections fd).pending = []) :
    ∀ e ∈ (releaseResources (s.removeEntry fd) job).2 ++ cToErlang instruction jobId,
      Allowed connections owed e :=
  allowed_append (allowed_released h) (allowed_toErlang _ _)

/-- A job is torn down and released. -/
theorem allowed_end {s' : ClientState}
    (h : ∀ fd ∈ tornOn s job ++ releasedOn job, (connections fd).pending = []) :
    ∀ e ∈ (tearDown s job).2 ++ (releaseResources s' job).2, Allowed connections owed e :=
  allowed_append (allowed_torn fun fd hFd => h fd (List.mem_append_left _ hFd))
    (allowed_released fun fd hFd => h fd (List.mem_append_right _ hFd))

theorem allowed_disconnect {fd : Int}
    (h : ∀ fd' ∈ endsOn s (.remote fd) .closed, (connections fd').pending = []) :
    ∀ e ∈ (clientStep s (.disconnect fd)).2, Allowed connections owed e := by
  simp only [clientStep, handleOutboundDisconnect]
  cases hOwner : s.owner fd with
  | none => simp
  | some job =>
      simp only [endsOn, hOwner, Option.map_some, Option.getD_some] at h
      exact allowed_reject h

theorem allowed_line {fd : Int} {text : Text} {now : Int} {dial : Dial}
    (hDial : DialAllowed connections owed dial)
    (h : ∀ fd' ∈ endsOn s (.remote fd) (.line text), (connections fd').pending = []) :
    ∀ e ∈ (clientStep s (.line fd text now dial)).2, Allowed connections owed e := by
  simp only [clientStep]
  cases hParse : parseRemote text with
  | granted jobId =>
      cases hOwner : s.owner fd with
      | none => simp [clientToMyserver, hOwner]
      | some job =>
          simp only [clientToMyserver, hOwner]
          split
          · exact List.forall_mem_cons.mpr ⟨trivial, allowed_ask hDial⟩
          · simp
  | reject =>
      cases hOwner : s.owner fd with
      | none => simp [clientToMyserver, hOwner]
      | some job =>
          simp only [endsOn, hParse, hOwner, if_true, Option.map_some, Option.getD_some] at h
          simp only [clientToMyserver, hOwner]
          exact allowed_reject h
  | _ => simp [clientToMyserver]

theorem allowed_erlang {fd : Int} {text : Text} {now : Int} {nodes : Table nodeCallbacks}
    {dial : Dial} (hDial : DialAllowed connections owed dial)
    (h : ∀ fd' ∈ endsOn s (.erlang fd) (.line text), (connections fd').pending = []) :
    ∀ e ∈ (clientStep s (.erlang text now nodes dial)).2, Allowed connections owed e := by
  simp only [clientStep]
  cases hParse : parseErlang text with
  | jobRequest jobId destinations =>
      cases destinations with
      | nil => exact allowed_toErlang _ _
      | cons token tokens => exact allowed_ask hDial
  | jobRelease jobId =>
      cases hFind : s.findJob (atoi jobId) with
      | none => simp [erlangToC, hFind]
      | some job =>
          simp only [endsOn, hParse, hFind, Option.map_some, Option.getD_some] at h
          simp only [erlangToC, hFind]
          exact allowed_end h
  | jobStatus jobId =>
      cases hFind : s.findJob (atoi jobId) with
      | none =>
          simp only [erlangToC, hFind]
          exact allowed_toErlang _ _
      | some job =>
          simp only [erlangToC, hFind]
          split
          · exact allowed_toErlang _ _
          · exact allowed_toErlang _ _
  | getNodes =>
      intro e he
      rw [List.mem_singleton.mp he]
      trivial
  | ignored => simp [erlangToC]

theorem allowed_timeOut {id : Int} {ids : List Int}
    (h : ∀ fd ∈ endsOn s (.sweep (id :: ids)) .more, (connections fd).pending = []) :
    ∀ e ∈ (timeOut [id] s).2, Allowed connections owed e := by
  cases hFind : s.findJob id with
  | none => simp [timeOut, hFind]
  | some job =>
      simp only [endsOn, hFind, Option.map_some, Option.getD_some] at h
      simp only [timeOut, hFind, List.append_nil]
      exact allowed_append (allowed_end h) (allowed_toErlang _ _)

theorem allowed_harmless {out : List Effect} (h : Harmless out) :
    ∀ e ∈ out, Allowed connections owed e := by
  intro e he
  have hTouched := (h e he).1
  cases e with
  | close fd => cases hTouched
  | connect fd jobId req => cases hTouched
  | _ => trivial

end

/-! ## Steps -/

section

variable {W : Type}

/-- What a worker's next step gets from `read_until_newline`. -/
def reading (p : Process W) (w : W) (env : Env) : Reading :=
  match p.handler w with
  | .erlang fd => (p.read fd env).2.2
  | .remote fd => (p.read fd env).2.2
  | _ => .more

/-- The buffers when the handler of the line, or the disconnect branch, begins. -/
def buffers (p : Process W) (w : W) (env : Env) : Buffers :=
  match p.handler w with
  | .erlang fd => (p.read fd env).2.1
  | .remote fd => (p.read fd env).2.1
  | _ => p.connections

/-- The connection a line is handed over for, and the line. -/
def handed (p : Process W) : LoopEvent W → Option (Int × Text)
  | .turn w env =>
      match p.handler w with
      | .erlang fd => (reading p w env).lines.head?.map fun text => (fd, text)
      | .remote fd => (reading p w env).lines.head?.map fun text => (fd, text)
      | _ => none
  | _ => none

def Accepted.fd : Accepted → Option Int
  | .refused => none
  | .epollFails fd => some fd
  | .added fd => some fd

/-- The descriptor on which a dial opens a connection. -/
def Dial.fd : Dial → Option Int
  | .noSocket => none
  | .connectFails _ => none
  | .epollFails fd => some fd
  | .connected fd => some fd

variable [DecidableEq W]

/-- The descriptors on which a step opens a connection. -/
def opens (p : Process W) : LoopEvent W → List Int
  | .connectErlang _ accepted => (Accepted.fd accepted).toList
  | .connectClient _ accepted => (Accepted.fd accepted).toList
  | e => (stepEffects p e).filterMap fun
      | .connect fd _ _ => some fd
      | _ => none

/-- No worker has still to clear the buffer of this descriptor. -/
def Settled (p : Process W) (fd : Option Int) : Prop := ∀ fd' ∈ fd, ∀ w, ¬ Clearing p w fd'

/-- The line read from the scheduler, if it is one, replaces no job with a request in
flight. -/
def LeavesInFlight (s : ClientState) : Handler → Reading → Prop
  | .erlang _, r => ∀ text ∈ r.lines, ReplacesIdle s text
  | _, _ => True

/-- What keeps the buffers apart in a step: a job is ended only while the connections
closed for it have nothing in their buffers; no job with a request in flight is
replaced; and nothing comes between the `close` of a disconnect branch and its
`clear_connection_buffer`: no connection gets the number, and `erlangfd` stays. -/
def Clean (p : Process W) : LoopEvent W → Prop
  | .connectErlang _ accepted =>
      Settled p (Accepted.fd accepted) ∧ ∀ w, p.handler w ≠ .leavingErlang
  | .connectClient _ accepted => Settled p (Accepted.fd accepted)
  | .turn w env =>
      Settled p (Dial.fd env.dial) ∧
      (∀ fd ∈ endsOn p.client (p.handler w) (reading p w env),
        (buffers p w env fd).accumulatedBytes = 0) ∧
      LeavesInFlight p.client (p.handler w) (reading p w env)
  | _ => True

/-- What a step must not do: hand over a line with bytes of another connection, or open a
connection on a descriptor with bytes in its buffer. -/
structure Isolating (p : Process W) (e : LoopEvent W) : Prop where
  line : ∀ x ∈ handed p e, ∃ c, p.kernel.last x.1 = some c ∧ x.2 <:+: (loopStep p e).heard c
  opened : ∀ fd ∈ opens p e, ((loopStep p e).connections fd).accumulatedBytes = 0

variable {p : Process W}

omit [DecidableEq W] in
theorem dialAllowed (h : Sorted p) {dial : Dial} (hFree : p.kernel.Free dial)
    (hSettled : Settled p (Dial.fd dial)) : DialAllowed p.connections (Owed p) dial := by
  have hEmpty : ∀ fd, Dial.fd dial = some fd → p.kernel.files fd = none →
      (p.connections fd).pending = [] := by
    intro fd hFd hFile
    refine Tracked.empty h hFile ?_
    rintro ⟨w, hw⟩
    exact hSettled fd hFd w hw
  cases dial with
  | noSocket => trivial
  | connectFails fd =>
      by_cases hBytes : (p.connections fd).pending = []
      · exact .inl hBytes
      · exact .inr (Tracked.clean h fd hFree hBytes)
  | epollFails fd => exact hEmpty fd rfl hFree
  | connected fd => exact hEmpty fd rfl hFree

omit [DecidableEq W] in
/-- Effects that the buffers allow, after which no worker owes less. -/
theorem Sorted.act (h : Sorted p) {q : Process W} {out : List Effect}
    (hKernel : q.kernel = p.kernel.performAll out) (hConnections : q.connections = p.connections)
    (hHeard : q.heard = p.heard) (hOwed : ∀ fd, Owed p fd → Owed q fd)
    (hAllowed : ∀ e ∈ out, Allowed p.connections (Owed q) e) : Sorted q := by
  have hPerformed := (Tracked.mono h hOwed).performAll hAllowed
  rw [Sorted, hKernel, hConnections, hHeard]
  exact hPerformed

omit [DecidableEq W] in
/-- A worker in a loop, or between events, has nothing to clear. -/
theorem not_clearing {w : W} (hLeaving : ∀ fd, p.handler w ≠ .leaving fd)
    (hErlang : p.handler w ≠ .leavingErlang) : ∀ fd, ¬ Clearing p w fd := by
  rintro fd (hw | ⟨hw, -⟩)
  · exact hLeaving fd hw
  · exact hErlang hw

/-- A turn of `message_from_erlang`. -/
theorem Sorted.erlang (h : Sorted p) {w : W} {fd : Int} (hHandler : p.handler w = .erlang fd)
    {env : Env} (hFree : p.kernel.Free env.dial)
    (hRecv : p.kernel.files fd = none → env.recv = .error) (hClean : Clean p (.turn w env)) :
    Sorted (turn p w env) ∧
      ∀ e ∈ turnEffects p w env, Allowed (buffers p w env) (Owed (turn p w env)) e := by
  have hq : Sorted (p.hear fd env) := h.hear hRecv
  have hBusy : ∀ fd', ¬ Clearing p w fd' :=
    not_clearing (by simp [hHandler]) (by simp [hHandler])
  obtain ⟨hSettled, hEnds, -⟩ := hClean
  simp only [hHandler, reading, buffers] at hEnds
  simp only [turn, turnEffects, buffers, hHandler]
  cases hRead : (p.read fd env).2.2 with
  | line text =>
      rw [hRead] at hEnds
      have hAllowed : ∀ e ∈ (clientStep p.client (.erlang text env.now env.nodes env.dial)).2,
          Allowed (p.hear fd env).connections (Owed p) e :=
        allowed_erlang (dialAllowed hq hFree hSettled) fun fd' hFd' =>
          pending_eq_nil.mpr (hEnds fd' hFd')
      exact ⟨hq.act rfl rfl rfl (fun _ hOwed => hOwed) hAllowed, hAllowed⟩
  | more =>
      refine ⟨@Sorted.act W _ hq _ [] rfl rfl rfl (fun _ hOwed => ?_) (by simp), by simp⟩
      exact @owed_setHandler W _ (p.hear fd env) w _ (hBusy _) _ hOwed
  | closed =>
      have hAllowed : ∀ e ∈ [Effect.epollDel p.erlangfd, .close p.erlangfd],
          Allowed (p.hear fd env).connections (Owed (((p.hear fd env).actClient
            (p.client, [.epollDel p.erlangfd, .close p.erlangfd])).setHandler w .leavingErlang))
            e := by
        intro e he
        simp only [List.mem_cons, List.not_mem_nil, or_false] at he
        rcases he with rfl | rfl
        · trivial
        · exact .inr ⟨w, .inr ⟨Function.update_self .., rfl⟩⟩
      refine ⟨hq.act rfl rfl rfl (fun _ hOwed => ?_) hAllowed, hAllowed⟩
      exact @owed_setHandler W _ ((p.hear fd env).actClient
        (p.client, [.epollDel p.erlangfd, .close p.erlangfd])) w _ (hBusy _) _ hOwed

/-- A turn of `recive_message_from_remote`. -/
theorem Sorted.remote (h : Sorted p) {w : W} {fd : Int} (hHandler : p.handler w = .remote fd)
    {env : Env} (hFree : p.kernel.Free env.dial)
    (hRecv : p.kernel.files fd = none → env.recv = .error) (hClean : Clean p (.turn w env)) :
    Sorted (turn p w env) ∧
      ∀ e ∈ turnEffects p w env, Allowed (buffers p w env) (Owed (turn p w env)) e := by
  have hq : Sorted (p.hear fd env) := h.hear hRecv
  have hBusy : ∀ fd', ¬ Clearing p w fd' :=
    not_clearing (by simp [hHandler]) (by simp [hHandler])
  obtain ⟨hSettled, hEnds, -⟩ := hClean
  simp only [hHandler, reading, buffers] at hEnds
  simp only [turn, turnEffects, buffers, hHandler]
  cases hRead : (p.read fd env).2.2 with
  | line text =>
      rw [hRead] at hEnds
      have hAllowed : ∀ e ∈ remoteLine p fd text env,
          Allowed (p.hear fd env).connections (Owed p) e :=
        allowed_append (allowed_harmless (harmless_serverMessage env.peers p.server fd text))
          (allowed_line (dialAllowed hq hFree hSettled) fun fd' hFd' =>
            pending_eq_nil.mpr (hEnds fd' hFd'))
      obtain ⟨grantedOn, hNoted⟩ := (p.hear fd env).noteGrant_eq fd text
      simp only [hNoted]
      refine ⟨hq.act ?_ rfl rfl (fun _ hOwed => hOwed) hAllowed, hAllowed⟩
      exact (performAll_append _ _ _).symm
  | more =>
      refine ⟨@Sorted.act W _ hq _ [] rfl rfl rfl (fun _ hOwed => ?_) (by simp), by simp⟩
      exact @owed_setHandler W _ (p.hear fd env) w _ (hBusy _) _ hOwed
  | closed =>
      rw [hRead] at hEnds
      have hAllowed : ∀ owed : Int → Prop, owed fd → ∀ e ∈ remoteEnd p fd env,
          Allowed (p.hear fd env).connections owed e := by
        intro owed hOwed
        refine allowed_append (allowed_append
          (allowed_harmless (harmless_releaseClientByFd env.peers p.server fd))
          (allowed_disconnect fun fd' hFd' => pending_eq_nil.mpr (hEnds fd' hFd'))) ?_
        exact List.forall_mem_cons.mpr ⟨trivial, List.forall_mem_cons.mpr ⟨.inr hOwed, by simp⟩⟩
      have hOwes := fun q : Process W => Function.update_self w (Handler.leaving fd) q.handler
      refine ⟨hq.act ?_ rfl rfl (fun _ hOwed => ?_) (hAllowed _ ⟨w, .inl (hOwes _)⟩),
        hAllowed _ ⟨w, .inl (hOwes _)⟩⟩
      · rw [remoteEnd, performAll_append, performAll_append]
        rfl
      · exact @owed_setHandler W _ (p.hear fd env) w _ (hBusy _) (.leaving fd) hOwed

omit [DecidableEq W] in
/-- `clear_connection_buffer`, after which its buffer is owed no more. -/
theorem Sorted.clear (h : Sorted p) (fd : Int) {q : Process W}
    (hKernel : q.kernel = p.kernel)
    (hConnections : q.connections = clearConnectionBuffer p.connections fd)
    (hHeard : q.heard = p.heard) (hOwed : ∀ fd', fd' ≠ fd → Owed p fd' → Owed q fd') :
    Sorted q := by
  have hOther : ∀ fd', fd' ≠ fd → q.connections fd' = p.connections fd' := by
    intro fd' hNe
    rw [hConnections, clearConnectionBuffer]
    split
    · exact Function.update_of_ne hNe ..
    · rfl
  have hEmpty : (q.connections fd).pending = [] := by
    rw [hConnections, clearConnectionBuffer]
    split
    · rw [Function.update_self]
      exact Connection.pending_clear _
    · rename_i hRange
      exact h.range fd (by omega)
  refine ⟨hKernel ▸ h.numbered, hKernel ▸ h.distinct, hKernel ▸ h.files, fun fd' => ?_,
    fun fd' hFile hBytes => ?_, fun fd' hRange => ?_⟩
  · rw [hKernel, hHeard]
    by_cases hFd : fd' = fd
    · rw [hFd, hEmpty]
      rcases h.bytes fd with ⟨c, hc, -⟩ | ⟨hNone, -⟩
      · exact .inl ⟨c, hc, List.nil_suffix⟩
      · exact .inr ⟨hNone, rfl⟩
    · rw [hOther fd' hFd]
      exact h.bytes fd'
  · have hFd : fd' ≠ fd := by
      rintro rfl
      exact hBytes hEmpty
    rw [hKernel] at hFile
    rw [hOther fd' hFd] at hBytes
    exact hOwed fd' hFd (h.clean fd' hFile hBytes)
  · by_cases hFd : fd' = fd
    · rw [hFd]
      exact hEmpty
    · rw [hOther fd' hFd]
      exact h.range fd' hRange

/-- **Every step of a handler keeps the buffers apart.** -/
theorem Sorted.turn (h : Sorted p) {w : W} {env : Env} (hEnabled : Enabled p (.turn w env))
    (hClean : Clean p (.turn w env)) :
    Sorted (turn p w env) ∧
      ∀ e ∈ turnEffects p w env, Allowed (buffers p w env) (Owed (turn p w env)) e := by
  obtain ⟨hFree, hRecv⟩ := hEnabled
  cases hHandler : p.handler w with
  | idle =>
      simp only [EventLoop.turn, turnEffects, hHandler]
      exact ⟨h, by simp⟩
  | sweep ids =>
      have hBusy : ∀ fd', ¬ Clearing p w fd' :=
        not_clearing (by simp [hHandler]) (by simp [hHandler])
      cases ids with
      | nil =>
          simp only [EventLoop.turn, turnEffects, hHandler]
          exact ⟨@Sorted.act W _ h _ [] rfl rfl rfl (fun _ => owed_setHandler (hBusy _) _)
            (by simp),
            by simp⟩
      | cons id ids =>
          have hEnds := hClean.2.1
          simp only [hHandler, reading, buffers] at hEnds
          simp only [EventLoop.turn, turnEffects, buffers, hHandler]
          have hAllowed : ∀ owed : Int → Prop, ∀ e ∈ (timeOut [id] p.client).2,
              Allowed p.connections owed e := fun owed =>
            allowed_timeOut fun fd hFd => pending_eq_nil.mpr (hEnds fd hFd)
          refine ⟨h.act rfl rfl rfl (fun _ hOwed => ?_) (hAllowed _), hAllowed _⟩
          exact @owed_setHandler W _ p w _ (hBusy _) (.sweep ids) hOwed
  | erlang fd =>
      rw [hHandler] at hRecv
      exact h.erlang hHandler hFree hRecv.1 hClean
  | remote fd =>
      rw [hHandler] at hRecv
      exact h.remote hHandler hFree hRecv.1 hClean
  | leaving fd =>
      simp only [EventLoop.turn, turnEffects, hHandler]
      refine ⟨h.clear fd rfl rfl rfl fun fd' hNe hOwed => ?_, by simp⟩
      have hOther : ¬ Clearing p w fd' := by
        rintro (hw | ⟨hw, -⟩)
        · rw [hHandler, Handler.leaving.injEq] at hw
          exact hNe hw.symm
        · rw [hHandler] at hw
          cases hw
      exact owed_setHandler hOther .idle hOwed
  | leavingErlang =>
      simp only [EventLoop.turn, turnEffects, hHandler]
      refine ⟨h.clear p.erlangfd rfl rfl rfl fun fd' hNe hOwed => ?_, by simp⟩
      obtain ⟨w', hw' | ⟨-, hFd⟩⟩ := hOwed
      · have hOther : w' ≠ w := by
          rintro rfl
          rw [hHandler] at hw'
          cases hw'
        have hSame : Function.update p.handler w .idle w' = p.handler w' :=
          Function.update_of_ne hOther ..
        exact ⟨w', .inl (hSame.trans hw')⟩
      · exact absurd hFd hNe

omit [DecidableEq W] in
theorem Sorted.accept (h : Sorted p) {accepted : Accepted} (hFree : accepted.Free p.kernel)
    (hSettled : Settled p (Accepted.fd accepted)) :
    Sorted (p.accept accepted) ∧
      ∀ fd ∈ Accepted.fd accepted, (p.connections fd).pending = [] := by
  have hEmpty : ∀ fd, Accepted.fd accepted = some fd → p.kernel.files fd = none →
      (p.connections fd).pending = [] := by
    intro fd hFd hFile
    refine Tracked.empty h hFile ?_
    rintro ⟨w, hw⟩
    exact hSettled fd hFd w hw
  cases accepted with
  | refused => exact ⟨h, by simp [Accepted.fd]⟩
  | epollFails fd =>
      have hPending := hEmpty fd rfl hFree
      refine ⟨Tracked.closeFile (Tracked.openFile h hPending) (.inl hPending), ?_⟩
      rintro fd' ⟨⟩
      exact hPending
  | added fd =>
      have hPending := hEmpty fd rfl hFree
      have hOpen := Tracked.openFile h hPending
      refine ⟨⟨hOpen.numbered, hOpen.distinct, hOpen.files, hOpen.bytes, hOpen.clean, hOpen.range⟩,
        ?_⟩
      rintro fd' ⟨⟩
      exact hPending

/-- What a turn of a read loop leaves in the buffers and in the record of what was
heard. -/
theorem turn_reads {w : W} {fd : Int} (env : Env)
    (hHandler : p.handler w = .erlang fd ∨ p.handler w = .remote fd) :
    (turn p w env).connections = (p.read fd env).2.1 ∧
      (turn p w env).heard = (p.hear fd env).heard := by
  rcases hHandler with hHandler | hHandler
  · simp only [turn, hHandler]
    cases (p.read fd env).2.2 <;> exact ⟨rfl, rfl⟩
  · simp only [turn, hHandler]
    cases (p.read fd env).2.2 with
    | line text =>
        obtain ⟨grantedOn, hNoted⟩ := (p.hear fd env).noteGrant_eq fd text
        simp only [hNoted]
        exact ⟨rfl, rfl⟩
    | more => exact ⟨rfl, rfl⟩
    | closed => exact ⟨rfl, rfl⟩

/-- A step that does something outside leaves the buffers as its handler found them. -/
theorem connections_turn {w : W} {env : Env} (h : turnEffects p w env ≠ []) :
    (turn p w env).connections = buffers p w env := by
  cases hHandler : p.handler w with
  | erlang fd =>
      simp only [buffers, hHandler]
      exact (turn_reads env (.inl hHandler)).1
  | remote fd =>
      simp only [buffers, hHandler]
      exact (turn_reads env (.inr hHandler)).1
  | sweep ids =>
      simp only [turn, buffers, hHandler]
      cases ids <;> rfl
  | _ => simp [turnEffects, hHandler] at h

/-- The line a turn hands over comes from one connection. -/
theorem Sorted.handed (h : Sorted p) {w : W} {env : Env}
    (hRecv : Receives p.kernel env (p.handler w)) :
    ∀ x ∈ handed p (.turn w env), ∃ c, p.kernel.last x.1 = some c ∧
      x.2 <:+: (EventLoop.turn p w env).heard c := by
  have hRead : ∀ fd, (p.handler w = .erlang fd ∨ p.handler w = .remote fd) →
      (p.kernel.files fd = none → env.recv = .error) →
      ∀ x ∈ (p.read fd env).2.2.lines.head?.map fun text => (fd, text),
        ∃ c, p.kernel.last x.1 = some c ∧ x.2 <:+: (EventLoop.turn p w env).heard c := by
    intro fd hHandler hError x hx
    rw [(turn_reads env hHandler).2]
    cases hReading : (p.read fd env).2.2 with
    | line text =>
        rw [hReading] at hx
        cases hx
        exact h.line hError hReading
    | more =>
        rw [hReading] at hx
        cases hx
    | closed =>
        rw [hReading] at hx
        cases hx
  intro x hx
  cases hHandler : p.handler w with
  | erlang fd =>
      rw [hHandler] at hRecv
      simp only [LineBuffers.handed, reading, hHandler] at hx
      exact hRead fd (.inl hHandler) hRecv.1 x hx
  | remote fd =>
      rw [hHandler] at hRecv
      simp only [LineBuffers.handed, reading, hHandler] at hx
      exact hRead fd (.inr hHandler) hRecv.1 x hx
  | _ => simp [LineBuffers.handed, hHandler] at hx

/-- **Every step keeps the buffers apart**, hands over the bytes of one connection, and
opens connections on empty buffers. -/
theorem Sorted.step (h : Sorted p) {e : LoopEvent W} (hEnabled : Enabled p e)
    (hClean : Clean p e) : Sorted (loopStep p e) ∧ Isolating p e := by
  have hIdle : ∀ {w : W}, p.handler w = .idle → ∀ fd, ¬ Clearing p w fd := fun hw =>
    not_clearing (by simp [hw]) (by simp [hw])
  -- a worker that takes an event changes nothing but where it is
  have hTake : ∀ {w : W}, p.handler w = .idle → ∀ next, Sorted (p.setHandler w next) :=
    fun hw next => @Sorted.act W _ h _ [] rfl rfl rfl (fun _ => owed_setHandler (hIdle hw _) next)
      (by simp)
  cases e with
  | connectErlang w accepted =>
      obtain ⟨hAccepted, hEmpty⟩ := h.accept hEnabled.2 hClean.1
      obtain ⟨kernel, hEq⟩ := p.accept_eq accepted
      simp only [loopStep]
      rw [hEq] at hAccepted ⊢
      refine ⟨Tracked.mono hAccepted fun fd => ?_, by simp [LineBuffers.handed], fun fd hFd => ?_⟩
      · rintro ⟨w', hw' | ⟨hw', -⟩⟩
        · exact ⟨w', .inl hw'⟩
        · exact absurd hw' (hClean.2 w')
      · simp only [loopStep, hEq]
        exact pending_eq_nil.mp (hEmpty fd (by simpa [opens] using hFd))
  | connectClient w accepted =>
      obtain ⟨hAccepted, hEmpty⟩ := h.accept hEnabled.2 hClean
      obtain ⟨kernel, hEq⟩ := p.accept_eq accepted
      refine ⟨hAccepted, by simp [LineBuffers.handed], fun fd hFd => ?_⟩
      simp only [loopStep, hEq]
      exact pending_eq_nil.mp (hEmpty fd (by simpa [opens] using hFd))
  | tick w now =>
      exact ⟨hTake hEnabled _, by simp [LineBuffers.handed], by simp [opens, stepEffects]⟩
  | readable w fd =>
      exact ⟨hTake hEnabled.1 _, by simp [LineBuffers.handed], by simp [opens, stepEffects]⟩
  | writable w fd =>
      simp only [loopStep]
      by_cases hErlang : fd = p.erlangfd
      · rw [if_pos hErlang]
        exact ⟨hTake hEnabled.1 _, by simp [LineBuffers.handed],
          by simp [opens, stepEffects, hErlang]⟩
      · have hQuiet := harmless_sendRequest p.client fd
        rw [if_neg hErlang]
        refine ⟨h.act rfl rfl rfl (fun _ hOwed => hOwed) (allowed_harmless hQuiet),
          by simp [LineBuffers.handed], fun fd' hFd' => ?_⟩
        simp only [opens, stepEffects, hErlang, if_false] at hFd'
        obtain ⟨e, he, hConnect⟩ := List.mem_filterMap.mp hFd'
        have hTouched := (hQuiet e he).1
        cases e with
        | connect => cases hTouched
        | _ => cases hConnect
  | turn w env =>
      obtain ⟨hTurn, hAllowed⟩ := h.turn hEnabled hClean
      refine ⟨hTurn, h.handed hEnabled.2, fun fd hFd => ?_⟩
      obtain ⟨e, he, hConnect⟩ := List.mem_filterMap.mp hFd
      have hEmpty := hAllowed e he
      simp only [loopStep]
      rw [connections_turn (List.ne_nil_of_mem he)]
      cases e with
      | connect fd' jobId req =>
          cases hConnect
          exact pending_eq_nil.mp hEmpty
      | _ => cases hConnect

end

/-! ## Every run -/

instance (s : ClientState) : ∀ h r, Decidable (LeavesInFlight s h r)
  | .erlang _, r => inferInstanceAs (Decidable (∀ text ∈ r.lines, ReplacesIdle s text))
  | .idle, _ => inferInstanceAs (Decidable True)
  | .remote _, _ => inferInstanceAs (Decidable True)
  | .leavingErlang, _ => inferInstanceAs (Decidable True)
  | .leaving _, _ => inferInstanceAs (Decidable True)
  | .sweep _, _ => inferInstanceAs (Decidable True)

instance {W : Type} [Fintype W] (p : Process W) (fd : Option Int) : Decidable (Settled p fd) :=
  inferInstanceAs (Decidable (∀ fd' ∈ fd, ∀ w, ¬ Clearing p w fd'))

instance {W : Type} [Fintype W] [DecidableEq W] (p : Process W) : ∀ e, Decidable (Clean p e)
  | .connectErlang _ accepted =>
      inferInstanceAs (Decidable (Settled p (Accepted.fd accepted) ∧
        ∀ w, p.handler w ≠ .leavingErlang))
  | .connectClient _ accepted => inferInstanceAs (Decidable (Settled p (Accepted.fd accepted)))
  | .turn w env =>
      inferInstanceAs (Decidable (Settled p (Dial.fd env.dial) ∧
        (∀ fd ∈ endsOn p.client (p.handler w) (reading p w env),
          (buffers p w env fd).accumulatedBytes = 0) ∧
        LeavesInFlight p.client (p.handler w) (reading p w env)))
  | .tick _ _ => inferInstanceAs (Decidable True)
  | .readable _ _ => inferInstanceAs (Decidable True)
  | .writable _ _ => inferInstanceAs (Decidable True)

/-- The provider sends `bytes` with its GRANTED.  The job is released, another node gets
descriptor 5, and its data is read. -/
def reconnected (bytes : Text) : List (LoopEvent Unit) :=
  asking ++ [.turn () (arrival (.data ("GRANTED 1001\n".toList ++ bytes)) .noSocket),
    .turn () (arrival .again .noSocket), .readable () 4,
    .turn () (arrival (.data "JOB_RELEASE 1001\n".toList) .noSocket),
    .turn () (arrival .again .noSocket), .connectClient () (.added 5), .readable () 5]

end ResourceAgent.Ports.LineBuffers
