import Mathlib.Data.List.Nodup
import ResourceAgent.Ports.EventLoop
import ResourceAgent.Ports.Replacement

/-!
# Who owns a held provider connection

When a GRANTED is read, the connection it came on is kept in the granted request
of the job (`provider_fd`), to send RELEASE on it later.  The comment (B1) in
`client_to_myserver` gives its lifetime to `release_resources` alone.  Here the
handlers run one at a time, as the only worker of the event loop, and the question is whether
`provider_fd` always leads to the connection on which the grant was received.

`Holding` is the invariant: the descriptors that the jobs hold are open, lead to
the connections noted in `grantedOn`, are not registered with `epoll`, are held
once, and are in no index entry.  It survives every step but one: the read loop
that has taken the GRANTED goes on reading the same descriptor, and when it sees
the end of the connection there, its disconnect branch closes what the job holds.
-/

namespace ResourceAgent.Ports.Ownership

open ResourceAgent.Ports.HashTable
open ResourceAgent.Ports.Records
open ResourceAgent.Ports.Wire
open ResourceAgent.Ports.Client
open ResourceAgent.Ports.Reservation
open ResourceAgent.Ports.Framing
open ResourceAgent.Ports.EventLoop
open ResourceAgent.Ports.Replacement
open ResourceAgent.Verified.CText
open ResourceAgent.Verified.Runs

/-! ## Effects and descriptors -/

/-- The descriptor whose entry in the kernel an effect changes. -/
def touched : Effect → Option Int
  | .close fd => some fd
  | .connect fd _ _ => some fd
  | .epollAdd fd => some fd
  | .epollDel fd => some fd
  | _ => none

section

variable (k : Kernel)

@[simp] theorem performAll_nil : k.performAll [] = k := rfl

@[simp] theorem performAll_cons (e : Effect) (out : List Effect) :
    k.performAll (e :: out) = (k.perform e).performAll out := rfl

theorem performAll_append (out out' : List Effect) :
    k.performAll (out ++ out') = (k.performAll out).performAll out' := by
  simp [Kernel.performAll]

theorem resolve_append (out out' : List Effect) :
    k.resolve (out ++ out') = k.resolve out ++ (k.performAll out).resolve out' := by
  induction out generalizing k with
  | nil => rfl
  | cons e out ih => simp only [List.cons_append, Kernel.resolve, ih, performAll_cons]

/-- What a step of the kernel leaves of a descriptor. -/
def Kernel.SameAt (k' : Kernel) (fd : Int) : Prop :=
  k'.files fd = k.files fd ∧ k'.monitored fd = k.monitored fd

theorem perform_sameAt {e : Effect} {fd : Int} (h : touched e ≠ some fd) :
    Kernel.SameAt k (k.perform e) fd := by
  cases e with
  | close fd' =>
      have hNe : fd ≠ fd' := fun hSame => h (by rw [hSame]; rfl)
      simp [Kernel.SameAt, Kernel.perform, Kernel.closeFile, Function.update_of_ne hNe]
  | connect fd' _ _ =>
      have hNe : fd ≠ fd' := fun hSame => h (by rw [hSame]; rfl)
      simp [Kernel.SameAt, Kernel.perform, Kernel.openFile, Function.update_of_ne hNe]
  | epollAdd fd' =>
      have hNe : fd ≠ fd' := fun hSame => h (by rw [hSame]; rfl)
      simp [Kernel.SameAt, Kernel.perform, Kernel.monitor, Function.update_of_ne hNe]
  | epollDel fd' =>
      have hNe : fd ≠ fd' := fun hSame => h (by rw [hSame]; rfl)
      simp [Kernel.SameAt, Kernel.perform, Kernel.monitor, Function.update_of_ne hNe]
  | _ => exact ⟨rfl, rfl⟩

/-- **Frame rule.**  Effects leave alone every descriptor they do not name. -/
theorem performAll_sameAt {out : List Effect} {fd : Int} (h : ∀ e ∈ out, touched e ≠ some fd) :
    Kernel.SameAt k (k.performAll out) fd := by
  induction out generalizing k with
  | nil => exact ⟨rfl, rfl⟩
  | cons e out ih =>
      have hHead := perform_sameAt k (h e (by simp))
      have hTail := ih (k.perform e) fun x hx => h x (by simp [hx])
      rw [performAll_cons]
      exact ⟨hTail.1.trans hHead.1, hTail.2.trans hHead.2⟩

/-- Effects that name no descriptor of the kernel. -/
theorem performAll_quiet {out : List Effect} (h : ∀ e ∈ out, touched e = none) :
    k.performAll out = k := by
  induction out with
  | nil => rfl
  | cons e out ih =>
      have hHead : k.perform e = k := by
        have hQuiet := h e (by simp)
        cases e <;> simp_all [touched, Kernel.perform]
      rw [performAll_cons, hHead]
      exact ih fun x hx => h x (by simp [hx])

end

/-! ## Lines of the server side -/

/-- A line of `release_resources`. -/
def IsRelease (line : Text) : Prop := "RELEASE ".toList <+: line

theorem not_isRelease_grantedLine (jobId : Int) : ¬ IsRelease (grantedLine jobId) := by
  rintro ⟨rest, hLine⟩
  simp [grantedLine, unwords] at hLine

theorem not_isRelease_reserveLine (jobId amount : Int) (type : Text) :
    ¬ IsRelease (reserveLine jobId type amount) := by
  rintro ⟨rest, hLine⟩
  simp [reserveLine, unwords] at hLine

/-- Effects that neither name a descriptor of the kernel nor send a RELEASE. -/
def Harmless (out : List Effect) : Prop :=
  ∀ e ∈ out, touched e = none ∧ ∀ fd line, e = .send fd line → ¬ IsRelease line

theorem harmless_drained {peers : Peers} {s s' : ServerState} {out : List Effect}
    {grants : List Grant} (h : Drained peers s s' out grants) : Harmless out := by
  intro e he
  rw [h.out, List.mem_flatMap] at he
  obtain ⟨g, -, he⟩ := he
  simp only [Grant.effects, List.mem_cons, List.not_mem_nil, or_false] at he
  rcases he with rfl | rfl
  · exact ⟨rfl, by simp⟩
  · refine ⟨rfl, fun fd line hSend => ?_⟩
    rw [Effect.send.injEq] at hSend
    rw [← hSend.2]
    exact not_isRelease_grantedLine _

theorem harmless_serverMessage (peers : Peers) (s : ServerState) (fd : Int) (line : Text) :
    Harmless (serverMessage peers s fd line).2 := by
  obtain ⟨_, _, -, hDrained⟩ := serverMessage_drained peers s fd line
  exact harmless_drained hDrained

theorem harmless_releaseClientByFd (peers : Peers) (s : ServerState) (fd : Int) :
    Harmless (releaseClientByFd peers s fd).2 := by
  obtain ⟨_, _, -, hDrained⟩ := releaseClientByFd_drained peers s fd
  exact harmless_drained hDrained

/-! ## The invariant -/

/-- Some job holds `fd` as `provider_fd`. -/
def Held (s : ClientState) (fd : Int) : Prop :=
  ∃ job ∈ s.jobs, ∃ granted ∈ job.grantedReqs, granted.providerFd = fd

instance (s : ClientState) (fd : Int) : Decidable (Held s fd) :=
  inferInstanceAs (Decidable (∃ job ∈ s.jobs, ∃ granted ∈ job.grantedReqs, granted.providerFd = fd))

structure Holding (s : ClientState) (k : Kernel) (grantedOn : Nat → List (Option Nat)) : Prop where
  granted : ∀ job ∈ s.jobs, List.Forall₂
    (fun granted c => 0 ≤ granted.providerFd ∧ c ≠ none ∧ k.files granted.providerFd = c)
    job.grantedReqs (grantedOn job.addr)
  unmonitored : ∀ fd, Held s fd → k.monitored fd = false
  once : ∀ job ∈ s.jobs, (job.grantedReqs.map PendingResource.providerFd).Nodup
  apart : ∀ job ∈ s.jobs, ∀ job' ∈ s.jobs, ∀ granted ∈ job.grantedReqs,
    ∀ granted' ∈ job'.grantedReqs, granted.providerFd = granted'.providerFd → job.addr = job'.addr
  entries : ∀ e ∈ s.entries, ¬ Held s e.fd
  unborn : ∀ addr, s.brk ≤ addr → grantedOn addr = []

theorem exists_zip_of_mem {α β : Type} {R : α → β → Prop} {l : List α} {l' : List β} {a : α}
    (h : List.Forall₂ R l l') (ha : a ∈ l) : ∃ b, (a, b) ∈ l.zip l' ∧ R a b := by
  induction h with
  | nil => simp at ha
  | @cons x y xs ys hHead _ ih =>
      rcases List.mem_cons.mp ha with rfl | ha
      · exact ⟨y, by simp, hHead⟩
      · obtain ⟨b, hMem, hR⟩ := ih ha
        exact ⟨b, by simp [hMem], hR⟩

theorem of_mem_zip {α β : Type} {R : α → β → Prop} {l : List α} {l' : List β} {x : α × β}
    (h : List.Forall₂ R l l') (hx : x ∈ l.zip l') : R x.1 x.2 :=
  (List.forall₂_iff_zip.mp h).2 hx

section

variable {s : ClientState} {k : Kernel} {grantedOn : Nat → List (Option Nat)}

theorem Holding.files_ne_none (h : Holding s k grantedOn) {fd : Int} (hHeld : Held s fd) :
    k.files fd ≠ none := by
  obtain ⟨job, hJob, granted, hGranted, rfl⟩ := hHeld
  obtain ⟨c, -, -, hSome, hFile⟩ := exists_zip_of_mem (h.granted job hJob) hGranted
  rw [hFile]
  exact hSome

/-- **What is held stays held.**  The jobs of the new state hold what they held,
or are new; new index entries are for descriptors that were free; the kernel has
not touched what is held. -/
theorem Holding.carry (h : Holding s k grantedOn) {s' : ClientState} {k' : Kernel}
    (hJobs : ∀ x ∈ s'.jobs, (x.grantedReqs = [] ∧ grantedOn x.addr = []) ∨
      ∃ y ∈ s.jobs, y.addr = x.addr ∧ y.grantedReqs = x.grantedReqs)
    (hEntries : ∀ e ∈ s'.entries, e ∈ s.entries ∨ k.files e.fd = none)
    (hBrk : s.brk ≤ s'.brk)
    (hKernel : ∀ fd, Held s' fd → k.files fd ≠ none → Kernel.SameAt k k' fd) :
    Holding s' k' grantedOn := by
  have hHeld : ∀ fd, Held s' fd → Held s fd := by
    rintro fd ⟨x, hx, granted, hGranted, rfl⟩
    rcases hJobs x hx with ⟨hNone, -⟩ | ⟨y, hy, -, hSame⟩
    · simp [hNone] at hGranted
    · exact ⟨y, hy, granted, hSame ▸ hGranted, rfl⟩
  have hKept : ∀ fd, Held s' fd → Kernel.SameAt k k' fd := fun fd hFd =>
    hKernel fd hFd (h.files_ne_none (hHeld fd hFd))
  constructor
  · intro x hx
    rcases hJobs x hx with ⟨hNone, hFresh⟩ | ⟨y, hy, hAddr, hSame⟩
    · rw [hNone, hFresh]
      exact .nil
    · have hGranted := h.granted y hy
      rw [hSame, hAddr, List.forall₂_iff_zip] at hGranted
      rw [List.forall₂_iff_zip]
      refine ⟨hGranted.1, fun {granted c} hMem => ?_⟩
      obtain ⟨hPos, hSome, hFile⟩ := hGranted.2 hMem
      refine ⟨hPos, hSome, ?_⟩
      rw [(hKept granted.providerFd ⟨x, hx, granted, (List.of_mem_zip hMem).1, rfl⟩).1, hFile]
  · intro fd hFd
    rw [(hKept fd hFd).2]
    exact h.unmonitored fd (hHeld fd hFd)
  · intro x hx
    rcases hJobs x hx with ⟨hNone, -⟩ | ⟨y, hy, -, hSame⟩
    · simp [hNone]
    · rw [← hSame]
      exact h.once y hy
  · intro x hx x' hx' granted hGranted granted' hGranted' hFd
    rcases hJobs x hx with ⟨hNone, -⟩ | ⟨y, hy, hAddr, hSame⟩
    · simp [hNone] at hGranted
    · rcases hJobs x' hx' with ⟨hNone, -⟩ | ⟨y', hy', hAddr', hSame'⟩
      · simp [hNone] at hGranted'
      · rw [← hAddr, ← hAddr']
        exact h.apart y hy y' hy' granted (hSame ▸ hGranted) granted' (hSame' ▸ hGranted') hFd
  · intro e he hFd
    rcases hEntries e he with he | hFree
    · exact h.entries e he (hHeld _ hFd)
    · exact h.files_ne_none (hHeld _ hFd) hFree
  · intro addr hAddr
    exact h.unborn addr (hBrk.trans hAddr)

/-- `ask_for_next_resource`, with a descriptor that was free. -/
theorem Holding.ask (h : Holding s k grantedOn) (hAddr : s.AddrKeys) {job : LocalJob}
    (hJob : job ∈ s.jobs) (hId : IsInt job.jobId) {dial : Dial} (hFree : k.Free dial) :
    Holding (askForNextResource dial s job).1 (k.performAll (askForNextResource dial s job).2)
      grantedOn := by
  obtain ⟨hChanged, hOut⟩ := askForNextResource_changed hAddr hJob hId dial
  have hTouched : ∀ e ∈ (asked dial job).out, ∀ fd, touched e = some fd → k.files fd = none := by
    intro e he fd hFd
    cases hNext : job.nextReq with
    | nil =>
        simp only [asked, hNext, List.mem_singleton] at he
        subst he
        simp [touched] at hFd
    | cons req rest =>
        cases dial <;> simp only [asked, hNext, List.mem_cons, List.not_mem_nil, or_false] at he
        · rcases he with rfl
          rw [touched, Option.some.injEq] at hFd
          exact hFd ▸ hFree
        · rcases he with rfl | rfl <;> rw [touched, Option.some.injEq] at hFd <;>
            exact hFd ▸ hFree
        · rcases he with rfl | rfl <;> rw [touched, Option.some.injEq] at hFd <;>
            exact hFd ▸ hFree
  have hAdded : ∀ e ∈ (asked dial job).added, k.files e.fd = none := by
    intro e he
    cases hNext : job.nextReq with
    | nil => simp [asked, hNext] at he
    | cons req rest =>
        cases dial with
        | connected fd =>
            simp only [asked, hNext, List.mem_singleton] at he
            subst he
            exact hFree
        | _ => simp [asked, hNext] at he
  rw [hOut]
  refine h.carry (fun x hx => .inr ?_) (fun e he => ?_) hChanged.brk.ge ?_
  · rcases (hChanged.jobs x).mp hx with hx | ⟨hx, -⟩
    · cases hx
      exact ⟨job, hJob, (asked_addr dial job).symm, (asked_grantedReqs dial job).symm⟩
    · exact ⟨x, hx, rfl, rfl⟩
  · rcases (hChanged.entries e).mp he with he | ⟨he, -⟩
    · exact .inr (hAdded e he)
    · exact .inl he
  · intro fd _ hOpen
    exact performAll_sameAt k fun e he hFd => hOpen (hTouched e he fd hFd)

/-- A GRANTED is read from the connection of a waiting job. -/
theorem Holding.advance (h : Holding s k grantedOn) (hTidy : Tidy s) {fd : Int} {job : LocalJob}
    (hEntry : ⟨fd, job.addr⟩ ∈ s.entries) (hJob : job ∈ s.jobs) (hOpen : k.files fd ≠ none)
    (now : Int) :
    Holding ((s.writeJob (LocalJob.advance job fd now)).removeEntry fd) (k.monitor fd false)
      (Function.update grantedOn job.addr (k.files fd :: grantedOn job.addr)) := by
  have hChanged := advance_changed hTidy.addrKeys hJob fd now
  have hFree := h.entries _ hEntry
  obtain ⟨hPos, hWaiting⟩ : 0 ≤ fd ∧ job.nextReq ≠ [] := by
    obtain ⟨hPos, x, hx, hAddr, hNext, -⟩ := hTidy.entries _ hEntry
    rw [hTidy.addrKeys x hx job hJob hAddr] at hNext
    exact ⟨hPos, hNext⟩
  have hGrantedReqs : ∃ req : PendingResource, (LocalJob.advance job fd now).grantedReqs =
      { req with providerFd := fd } :: job.grantedReqs := by
    obtain ⟨req, rest, hNext⟩ := List.exists_cons_of_ne_nil hWaiting
    exact ⟨req, by simp [LocalJob.advance, hNext]⟩
  obtain ⟨req, hGrantedReqs⟩ := hGrantedReqs
  have hAdvanced := LocalJob.advance_addr job fd now
  -- what was held before, by a job as it is now
  have hOld : ∀ x ∈ ((s.writeJob (LocalJob.advance job fd now)).removeEntry fd).jobs,
      ∀ granted ∈ x.grantedReqs, granted.providerFd ≠ fd →
      ∃ y ∈ s.jobs, y.addr = x.addr ∧ granted ∈ y.grantedReqs := by
    intro x hx granted hGranted hNe
    rcases (hChanged.jobs x).mp hx with hx | ⟨hx, -⟩
    · cases hx
      rw [hGrantedReqs, List.mem_cons] at hGranted
      rcases hGranted with rfl | hGranted
      · exact absurd rfl hNe
      · exact ⟨job, hJob, hAdvanced.symm, hGranted⟩
    · exact ⟨x, hx, rfl, hGranted⟩
  have hNew : ∀ x ∈ ((s.writeJob (LocalJob.advance job fd now)).removeEntry fd).jobs,
      ∀ granted ∈ x.grantedReqs, granted.providerFd = fd → x.addr = job.addr := by
    intro x hx granted hGranted hFd
    rcases (hChanged.jobs x).mp hx with hx | ⟨hx, -⟩
    · cases hx
      exact hAdvanced
    · exact absurd ⟨x, hx, granted, hGranted, hFd⟩ hFree
  constructor
  · intro x hx
    rcases (hChanged.jobs x).mp hx with hx | ⟨hx, hNe⟩
    · cases hx
      rw [hGrantedReqs, hAdvanced, Function.update_self]
      exact .cons ⟨hPos, hOpen, rfl⟩ (h.granted job hJob)
    · rw [Function.update_of_ne hNe]
      exact h.granted x hx
  · rintro fd' ⟨x, hx, granted, hGranted, rfl⟩
    by_cases hFd : granted.providerFd = fd
    · simp [Kernel.monitor, hFd]
    · obtain ⟨y, hy, -, hGranted⟩ := hOld x hx granted hGranted hFd
      show Function.update k.monitored fd false granted.providerFd = false
      rw [Function.update_of_ne hFd]
      exact h.unmonitored _ ⟨y, hy, granted, hGranted, rfl⟩
  · intro x hx
    rcases (hChanged.jobs x).mp hx with hx | ⟨hx, -⟩
    · cases hx
      rw [hGrantedReqs, List.map_cons, List.nodup_cons]
      refine ⟨fun hMem => ?_, h.once job hJob⟩
      obtain ⟨granted, hGranted, hFd⟩ := List.mem_map.mp hMem
      exact hFree ⟨job, hJob, granted, hGranted, hFd⟩
    · exact h.once x hx
  · intro x hx x' hx' granted hGranted granted' hGranted' hSame
    by_cases hFd : granted.providerFd = fd
    · rw [hNew x hx granted hGranted hFd, hNew x' hx' granted' hGranted' (hSame ▸ hFd)]
    · obtain ⟨y, hy, hAddr, hMem⟩ := hOld x hx granted hGranted hFd
      obtain ⟨y', hy', hAddr', hMem'⟩ := hOld x' hx' granted' hGranted' (hSame ▸ hFd)
      rw [← hAddr, ← hAddr']
      exact h.apart y hy y' hy' granted hMem granted' hMem' hSame
  · rintro e he ⟨x, hx, granted, hGranted, hFd⟩
    obtain ⟨he, hNe⟩ := ((hChanged.entries e).mp he).resolve_left (by simp)
    have hOther : e.fd ≠ fd := by simpa using hNe
    obtain ⟨y, hy, -, hMem⟩ := hOld x hx granted hGranted (hFd ▸ hOther)
    exact h.entries e he ⟨y, hy, granted, hMem, hFd⟩
  · intro addr hAddr
    have hLt := hTidy.allocated job hJob
    have hBrk : s.brk ≤ addr := hAddr
    rw [Function.update_of_ne (by omega)]
    exact h.unborn addr hBrk

/-- The closes of `release_resources` are of what the job holds. -/
theorem held_of_touched_released {job : LocalJob} {e : Effect}
    (he : e ∈ released job) {fd : Int} (hFd : touched e = some fd) :
    ∃ granted ∈ job.grantedReqs, granted.providerFd = fd := by
  obtain ⟨granted, hGranted, he⟩ := List.mem_flatMap.mp he
  unfold releaseProvider at he
  split at he
  · simp only [List.mem_cons, List.not_mem_nil, or_false] at he
    rcases he with rfl | rfl | rfl
    · simp [touched] at hFd
    · exact ⟨granted, hGranted, Option.some.inj hFd⟩
    · exact ⟨granted, hGranted, Option.some.inj hFd⟩
  · simp at he

/-- The connection of a request still in flight. -/
theorem touched_tearDown {job : LocalJob} {e : Effect} (he : e ∈ (tearDown s job).2) {fd : Int}
    (hFd : touched e = some fd) : ∃ entry ∈ s.entries, entry.fd = fd := by
  unfold tearDown at he
  split at he
  · rename_i hEntry
    obtain ⟨entry, hFind⟩ := Option.isSome_iff_exists.mp hEntry.2
    obtain ⟨hMem, hSame⟩ := ClientState.findEntry_eq_some.mp hFind
    simp only [List.mem_cons, List.not_mem_nil, or_false] at he
    rcases he with rfl | rfl
    · exact ⟨entry, hMem, hSame.trans (Option.some.inj hFd)⟩
    · exact ⟨entry, hMem, hSame.trans (Option.some.inj hFd)⟩
  · simp at he

/-- A job ends: its connection in flight may be torn down, what it holds is
released, and the scheduler may be told. -/
theorem Holding.finish (h : Holding s k grantedOn) {job : LocalJob} (hJob : job ∈ s.jobs)
    {s' : ClientState} {dropped : List Int}
    (hChanged : Changed s s' job.addr none dropped []) {before after : List Effect}
    (hBefore : ∀ e ∈ before, ∀ fd, touched e = some fd → ∃ entry ∈ s.entries, entry.fd = fd)
    (hAfter : ∀ e ∈ after, touched e = none) :
    Holding s' (k.performAll (before ++ released job ++ after)) grantedOn := by
  refine h.carry (fun x hx => ?_) (fun e he => ?_) hChanged.brk.ge ?_
  · rcases (hChanged.jobs x).mp hx with hx | ⟨hx, -⟩
    · cases hx
    · exact .inr ⟨x, hx, rfl, rfl⟩
  · exact .inl (((hChanged.entries e).mp he).resolve_left (by simp)).1
  · rintro fd ⟨x, hx, granted, hGranted, rfl⟩ -
    obtain ⟨hx, hNe⟩ := ((hChanged.jobs x).mp hx).resolve_left (by simp)
    refine performAll_sameAt k fun e he hFd => ?_
    rcases List.mem_append.mp he with he | he
    · rcases List.mem_append.mp he with he | he
      · obtain ⟨entry, hEntry, hSame⟩ := hBefore e he _ hFd
        exact h.entries entry hEntry ⟨x, hx, granted, hGranted, hSame.symm⟩
      · obtain ⟨own, hOwn, hSame⟩ := held_of_touched_released he hFd
        exact hNe (h.apart x hx job hJob granted hGranted own hOwn hSame.symm)
    · rw [hAfter e he] at hFd
      cases hFd

end

/-! ## What is sent and closed -/

/-- The effects of a handler, seen on the connections they act on: a RELEASE goes to the
connection on which that resource was granted, which is then closed, and what a job
holds is not closed otherwise. -/
structure Faithful (s : ClientState) (k : Kernel) (grantedOn : Nat → List (Option Nat))
    (out : List Effect) : Prop where
  release : ∀ c fd line, (c, Effect.send fd line) ∈ k.resolve out → IsRelease line →
    ∃ job ∈ s.jobs, ∃ x ∈ job.grantedReqs.zip (grantedOn job.addr), x.1.providerFd = fd ∧ x.2 = c ∧
      line = releaseLine job.jobId x.1.type x.1.amount ∧ (c, Effect.close fd) ∈ k.resolve out
  closes : ∀ job ∈ s.jobs, ∀ x ∈ job.grantedReqs.zip (grantedOn job.addr), ∀ c,
    (c, Effect.close x.1.providerFd) ∈ k.resolve out →
      (x.2, Effect.send x.1.providerFd (releaseLine job.jobId x.1.type x.1.amount)) ∈ k.resolve out

/-- Effects that send no RELEASE and close nothing held. -/
def Spares (s : ClientState) (out : List Effect) : Prop :=
  ∀ e ∈ out, (∀ fd line, e = .send fd line → ¬ IsRelease line) ∧ ∀ fd, e = .close fd → ¬ Held s fd

section

variable {s : ClientState} {k : Kernel} {grantedOn : Nat → List (Option Nat)}

theorem Harmless.spares {out : List Effect} (h : Harmless out) : Spares s out := by
  intro e he
  refine ⟨(h e he).2, fun fd hClose => ?_⟩
  have hTouched := (h e he).1
  rw [hClose] at hTouched
  cases hTouched

theorem Spares.append {out out' : List Effect} (h : Spares s out) (h' : Spares s out') :
    Spares s (out ++ out') := by
  intro e he
  rcases List.mem_append.mp he with he | he
  · exact h e he
  · exact h' e he

theorem mem_of_mem_resolve {out : List Effect} {x : Option Nat × Effect}
    (h : x ∈ k.resolve out) : x.2 ∈ out := by
  induction out generalizing k with
  | nil => simp [Kernel.resolve] at h
  | cons e out ih =>
      rcases List.mem_cons.mp h with rfl | h
      · simp
      · exact List.mem_cons_of_mem _ (ih h)

/-- Effects around a faithful part. -/
theorem Faithful.around {before out after : List Effect} (hBefore : Spares s before)
    (h : Faithful s (k.performAll before) grantedOn out) (hAfter : Spares s after) :
    Faithful s k grantedOn (before ++ out ++ after) := by
  have hMem : ∀ x, x ∈ k.resolve (before ++ out ++ after) → x.2 ∈ before ∨
      x ∈ (k.performAll before).resolve out ∨ x.2 ∈ after := by
    intro x hx
    rw [resolve_append, resolve_append, List.mem_append, List.mem_append] at hx
    rcases hx with (hx | hx) | hx
    · exact .inl (mem_of_mem_resolve hx)
    · exact .inr (.inl hx)
    · exact .inr (.inr (mem_of_mem_resolve hx))
  have hInside : ∀ x ∈ (k.performAll before).resolve out,
      x ∈ k.resolve (before ++ out ++ after) := by
    intro x hx
    rw [resolve_append, resolve_append]
    simp [hx]
  constructor
  · intro c fd line hSend hRelease
    rcases hMem _ hSend with hSend | hSend | hSend
    · exact absurd hRelease ((hBefore _ hSend).1 fd line rfl)
    · obtain ⟨job, hJob, x, hx, hFd, hConn, hLine, hClose⟩ := h.release c fd line hSend hRelease
      exact ⟨job, hJob, x, hx, hFd, hConn, hLine, hInside _ hClose⟩
    · exact absurd hRelease ((hAfter _ hSend).1 fd line rfl)
  · intro job hJob x hx c hClose
    have hHeld : Held s x.1.providerFd := ⟨job, hJob, x.1, (List.of_mem_zip hx).1, rfl⟩
    rcases hMem _ hClose with hClose | hClose | hClose
    · exact absurd hHeld ((hBefore _ hClose).2 _ rfl)
    · exact hInside _ (h.closes job hJob x hx c hClose)
    · exact absurd hHeld ((hAfter _ hClose).2 _ rfl)

theorem Spares.faithful {out : List Effect} (h : Spares s out) : Faithful s k grantedOn out := by
  have hNone : Faithful s (k.performAll out) grantedOn [] :=
    ⟨by simp [Kernel.resolve], by simp [Kernel.resolve]⟩
  have hAll := Faithful.around h hNone (by intro e he; simp at he : Spares s [])
  simpa using hAll

/-- `release_resources` on distinct descriptors: each effect finds the connection its
descriptor led to at the start. -/
theorem resolve_released (jobId : Int) {gs : List PendingResource}
    (hNodup : (gs.map PendingResource.providerFd).Nodup) (k : Kernel) :
    k.resolve (gs.flatMap (releaseProvider jobId)) = gs.flatMap fun granted =>
      if 0 ≤ granted.providerFd then
        [(k.files granted.providerFd,
            .send granted.providerFd (releaseLine jobId granted.type granted.amount)),
          (none, .epollDel granted.providerFd),
          (k.files granted.providerFd, .close granted.providerFd)]
      else [] := by
  induction gs generalizing k with
  | nil => rfl
  | cons granted gs ih =>
      rw [List.map_cons, List.nodup_cons] at hNodup
      have hRest : ∀ x ∈ gs, x.providerFd ≠ granted.providerFd := fun x hx hSame =>
        hNodup.1 (List.mem_map.mpr ⟨x, hx, hSame⟩)
      rw [List.flatMap_cons, resolve_append, ih hNodup.2, List.flatMap_cons]
      congr 1
      · unfold releaseProvider
        split
        · rfl
        · rfl
      · refine List.flatMap_congr fun x hx => ?_
        have hSame : ((k.performAll (releaseProvider jobId granted)).files x.providerFd) =
            k.files x.providerFd := by
          refine (performAll_sameAt k fun e he hFd => ?_).1
          unfold releaseProvider at he
          split at he
          · simp only [List.mem_cons, List.not_mem_nil, or_false] at he
            rcases he with rfl | rfl | rfl
            · simp [touched] at hFd
            · exact hRest x hx (Option.some.inj hFd).symm
            · exact hRest x hx (Option.some.inj hFd).symm
          · simp at he
        rw [hSame]

theorem Holding.faithful_released (h : Holding s k grantedOn) (hAddr : s.AddrKeys)
    {job : LocalJob} (hJob : job ∈ s.jobs) : Faithful s k grantedOn (released job) := by
  have hResolved := resolve_released job.jobId (h.once job hJob) k
  have hZip := h.granted job hJob
  constructor
  · intro c fd line hSend _
    rw [released, hResolved, List.mem_flatMap] at hSend
    obtain ⟨granted, hGranted, hSend⟩ := hSend
    obtain ⟨c', hMem, hPos, -, hFile⟩ := exists_zip_of_mem hZip hGranted
    rw [if_pos hPos] at hSend
    simp only [List.mem_cons, Prod.mk.injEq, Effect.send.injEq, reduceCtorEq, and_false,
      List.not_mem_nil, or_false] at hSend
    obtain ⟨rfl, rfl, rfl⟩ := hSend
    refine ⟨job, hJob, (granted, c'), hMem, rfl, hFile.symm, rfl, ?_⟩
    rw [released, hResolved, List.mem_flatMap]
    exact ⟨granted, hGranted, by rw [if_pos hPos]; simp⟩
  · intro job' hJob' x hx c hClose
    rw [released, hResolved, List.mem_flatMap] at hClose ⊢
    obtain ⟨granted, hGranted, hClose⟩ := hClose
    obtain ⟨c', hMem, hPos, -, hFile⟩ := exists_zip_of_mem hZip hGranted
    rw [if_pos hPos] at hClose
    simp only [List.mem_cons, Prod.mk.injEq, Effect.close.injEq, reduceCtorEq, and_false,
      List.not_mem_nil, or_false, false_or] at hClose
    -- the descriptor is held once, so the element is one of this job
    have hMine := (List.of_mem_zip hx).1
    have hSame : job' = job :=
      hAddr job' hJob' job hJob (h.apart job' hJob' job hJob x.1 hMine granted hGranted hClose.2)
    subst hSame
    have hEq : x.1 = granted :=
      List.inj_on_of_nodup_map (h.once job' hJob') hMine hGranted hClose.2
    have hConn : k.files x.1.providerFd = x.2 := (of_mem_zip hZip hx).2.2
    refine ⟨granted, hGranted, ?_⟩
    rw [if_pos hPos, ← hEq, hConn]
    simp

end

/-! ## The handlers of the client side -/

/-- Only open descriptors are registered with `epoll`. -/
def Registered (k : Kernel) : Prop := ∀ fd, k.monitored fd = true → k.files fd ≠ none

section

variable {s : ClientState} {k : Kernel} {grantedOn : Nat → List (Option Nat)}

theorem Registered.openFile (h : Registered k) (fd : Int) : Registered (k.openFile fd) := by
  intro fd' hMonitored
  by_cases hSame : fd' = fd
  · simp [Kernel.openFile, hSame]
  · simp only [Kernel.openFile, Function.update_of_ne hSame]
    exact h fd' hMonitored

theorem Registered.closeFile (h : Registered k) (fd : Int) : Registered (k.closeFile fd) := by
  intro fd' hMonitored
  by_cases hSame : fd' = fd
  · simp [Kernel.closeFile, hSame] at hMonitored
  · simp only [Kernel.closeFile, Function.update_of_ne hSame] at hMonitored ⊢
    exact h fd' hMonitored

theorem Registered.monitor (h : Registered k) {fd : Int} {registered : Bool}
    (hOpen : registered = true → k.files fd ≠ none) : Registered (k.monitor fd registered) := by
  intro fd' hMonitored
  by_cases hSame : fd' = fd
  · rw [hSame]
    simp only [Kernel.monitor, hSame, Function.update_self] at hMonitored
    exact hOpen hMonitored
  · simp only [Kernel.monitor, Function.update_of_ne hSame] at hMonitored
    exact h fd' hMonitored

/-- Effects without a registration. -/
theorem Registered.performAll (h : Registered k) {out : List Effect}
    (hOut : ∀ e ∈ out, ∀ fd, e ≠ .epollAdd fd) : Registered (k.performAll out) := by
  induction out generalizing k with
  | nil => exact h
  | cons e out ih =>
      refine ih ?_ fun x hx => hOut x (by simp [hx])
      cases e with
      | close fd => exact h.closeFile fd
      | connect fd _ _ => exact h.openFile fd
      | epollAdd fd => exact absurd rfl (hOut _ (by simp) fd)
      | epollDel fd => exact h.monitor (by simp)
      | _ => exact h

theorem Registered.ask (h : Registered k) (dial : Dial) (job : LocalJob) :
    Registered (k.performAll (asked dial job).out) := by
  cases hNext : job.nextReq with
  | nil =>
      simp only [asked, hNext]
      exact h.performAll (by simp)
  | cons req rest =>
      cases dial with
      | connected fd =>
          simp only [asked, hNext, performAll_cons, performAll_nil]
          exact (h.openFile fd).monitor fun _ => by simp [Kernel.openFile]
      | _ =>
          simp only [asked, hNext]
          exact h.performAll (by simp)

/-- An open descriptor that is not closed stays open. -/
theorem performAll_open {fd : Int} {out : List Effect} (h : k.files fd ≠ none)
    (hOut : Effect.close fd ∉ out) : (k.performAll out).files fd ≠ none := by
  induction out generalizing k with
  | nil => exact h
  | cons e out ih =>
      rw [List.mem_cons, not_or] at hOut
      refine ih ?_ hOut.2
      cases e with
      | close fd' =>
          have hNe : fd ≠ fd' := fun hSame => hOut.1 (by rw [hSame])
          simpa [Kernel.perform, Kernel.closeFile, Function.update_of_ne hNe] using h
      | connect fd' _ _ =>
          by_cases hSame : fd = fd'
          · simp [Kernel.perform, Kernel.openFile, hSame]
          · simpa [Kernel.perform, Kernel.openFile, Function.update_of_ne hSame] using h
      | _ => exact h

/-- What is known after a handler of the client side: the new state and the effects. -/
structure Respects (s : ClientState) (k : Kernel) (grantedOn : Nat → List (Option Nat))
    (r : ClientState × List Effect) (grantedOn' : Nat → List (Option Nat)) : Prop where
  tidy : Tidy r.1
  holding : Holding r.1 (k.performAll r.2) grantedOn'
  faithful : Faithful s k grantedOn r.2
  registered : Registered (k.performAll r.2)

/-- A handler that only sends other lines. -/
theorem respects_harmless (hTidy : Tidy s) (h : Holding s k grantedOn) (hReg : Registered k)
    {out : List Effect} (hOut : Harmless out) : Respects s k grantedOn (s, out) grantedOn := by
  have hSame : k.performAll out = k := performAll_quiet k fun e he => (hOut e he).1
  refine ⟨hTidy, ?_, hOut.spares.faithful, ?_⟩
  · show Holding s (k.performAll out) grantedOn
    rw [hSame]
    exact h
  · show Registered (k.performAll out)
    rw [hSame]
    exact hReg

/-- A job ends. -/
theorem respects_finish (h : Holding s k grantedOn) (hTidy : Tidy s) (hReg : Registered k)
    {job : LocalJob} (hJob : job ∈ s.jobs) {s' : ClientState} {dropped : List Int}
    (hTidy' : Tidy s') (hChanged : Changed s s' job.addr none dropped [])
    {before after : List Effect}
    (hBefore : before = [] ∨ before = (tearDown s job).2) (hAfter : Harmless after) :
    Respects s k grantedOn (s', before ++ released job ++ after) grantedOn := by
  have hTouched : ∀ e ∈ before, ∀ fd, touched e = some fd → ∃ entry ∈ s.entries, entry.fd = fd := by
    intro e he fd hFd
    rcases hBefore with rfl | rfl
    · simp at he
    · exact touched_tearDown he hFd
  have hNoAdd : ∀ e ∈ before ++ released job ++ after, ∀ fd, e ≠ .epollAdd fd := by
    rintro e he fd rfl
    rcases List.mem_append.mp he with he | he
    · rcases List.mem_append.mp he with he | he
      · rcases hBefore with rfl | rfl
        · simp at he
        · unfold tearDown at he
          split at he <;> simp at he
      · obtain ⟨granted, -, he⟩ := List.mem_flatMap.mp he
        unfold releaseProvider at he
        split at he <;> simp at he
    · exact absurd (hAfter _ he).1 (by simp [touched])
  have hSpares : Spares s before := by
    intro e he
    constructor
    · rintro fd line rfl
      rcases hBefore with rfl | rfl
      · simp at he
      · unfold tearDown at he
        split at he <;> simp at he
    · rintro fd rfl hHeld
      obtain ⟨entry, hEntry, hSame⟩ := hTouched _ he fd rfl
      exact h.entries entry hEntry (hSame.symm ▸ hHeld)
  have hMid : Holding s (k.performAll before) grantedOn := by
    refine h.carry (fun x hx => .inr ⟨x, hx, rfl, rfl⟩) (fun e he => .inl he) (le_refl _) ?_
    intro fd hHeld _
    refine performAll_sameAt k fun e he hFd => ?_
    obtain ⟨entry, hEntry, hSame⟩ := hTouched e he fd hFd
    exact h.entries entry hEntry (hSame.symm ▸ hHeld)
  refine ⟨hTidy', ?_, ?_, hReg.performAll hNoAdd⟩
  · exact h.finish hJob hChanged hTouched fun e he => (hAfter e he).1
  · exact .around hSpares (hMid.faithful_released hTidy.addrKeys hJob) hAfter.spares

theorem harmless_toErlang (instruction : Instruction) (jobId : Text) :
    Harmless (cToErlang instruction jobId) := by
  intro e he
  unfold cToErlang at he
  split at he
  · simp at he
  · rw [List.mem_singleton.mp he]
    exact ⟨rfl, by simp⟩

/-- A rejection or a disconnect on the connection of a waiting job. -/
theorem respects_reject (h : Holding s k grantedOn) (hTidy : Tidy s) (hReg : Registered k)
    {fd : Int} {job : LocalJob} (hOwner : s.owner fd = some job) :
    Respects s k grantedOn
      ((releaseResources (s.removeEntry fd) job).1.removeJob job,
        (releaseResources (s.removeEntry fd) job).2 ++ cToErlang .rejected (itoa job.jobId))
      grantedOn := by
  obtain ⟨-, hJob⟩ := (ClientState.owner_eq_some hTidy.addrKeys).mp hOwner
  have hMove : Move .other s _ _ := reject_move hTidy hOwner
  have hEnd := respects_finish h hTidy hReg hJob (hMove.tidy hTidy) (reject_changed hTidy hJob)
    (.inl rfl) (harmless_toErlang .rejected (itoa job.jobId))
  exact hEnd

/-- The job a sweep or a JOB_RELEASE ends. -/
theorem respects_tearDown (h : Holding s k grantedOn) (hTidy : Tidy s) (hReg : Registered k)
    {job : LocalJob} (hJob : job ∈ s.jobs) {after : List Effect} (hAfter : Harmless after) :
    Respects s k grantedOn
      ((releaseResources (tearDown s job).1 job).1.removeJob job,
        (tearDown s job).2 ++ released job ++ after) grantedOn := by
  have hChanged := tearDown_release_changed hTidy hJob
  have hMove : Move (.release job.jobId) s _ _ := .release hJob rfl hChanged
  exact respects_finish h hTidy hReg hJob (hMove.tidy hTidy) hChanged (.inr rfl) hAfter

theorem respects_disconnect (h : Holding s k grantedOn) (hTidy : Tidy s) (hReg : Registered k)
    (fd : Int) : Respects s k grantedOn (clientStep s (.disconnect fd)) grantedOn := by
  simp only [clientStep, handleOutboundDisconnect]
  cases hOwner : s.owner fd with
  | none => exact respects_harmless hTidy h hReg (by intro e he; simp at he)
  | some job => exact respects_reject h hTidy hReg hOwner

theorem respects_timeOut (h : Holding s k grantedOn) (hTidy : Tidy s) (hReg : Registered k)
    (id : Int) : Respects s k grantedOn (timeOut [id] s) grantedOn := by
  simp only [timeOut]
  cases hFind : s.findJob id with
  | none => exact respects_harmless hTidy h hReg (by intro e he; simp at he)
  | some job =>
      obtain ⟨hJob, -⟩ := ClientState.findJob_eq_some.mp hFind
      have hEnd := respects_tearDown h hTidy hReg hJob
        (harmless_toErlang .timeout (itoa job.jobId))
      simpa [releaseResources, released] using hEnd

/-- `send_request` sends a RESERVE at most. -/
theorem harmless_sendRequest (s : ClientState) (fd : Int) :
    Harmless (clientStep s (.sendRequest fd)).2 := by
  cases hOwner : s.owner fd with
  | none => simp [Harmless, clientStep, sendRequest, hOwner]
  | some job =>
      cases hNext : job.nextReq with
      | nil => simp [Harmless, clientStep, sendRequest, hOwner, hNext]
      | cons req rest =>
          intro e he
          simp only [clientStep, sendRequest, hOwner, hNext, List.mem_cons,
            List.not_mem_nil, or_false] at he
          rcases he with rfl | rfl
          · refine ⟨rfl, fun fd' line hSend => ?_⟩
            rw [Effect.send.injEq] at hSend
            rw [← hSend.2]
            exact not_isRelease_reserveLine _ _ _
          · exact ⟨rfl, by simp⟩

theorem respects_sendRequest (h : Holding s k grantedOn) (hTidy : Tidy s) (hReg : Registered k)
    (fd : Int) : Respects s k grantedOn (clientStep s (.sendRequest fd)) grantedOn := by
  have hSame : (clientStep s (.sendRequest fd)).1 = s := by
    cases hOwner : s.owner fd with
    | none => simp only [clientStep, sendRequest, hOwner]
    | some job => cases hNext : job.nextReq <;> simp only [clientStep, sendRequest, hOwner, hNext]
  have hPair : clientStep s (.sendRequest fd) = (s, (clientStep s (.sendRequest fd)).2) :=
    Prod.ext hSame rfl
  rw [hPair]
  exact respects_harmless hTidy h hReg (harmless_sendRequest s fd)

/-- The dial of `ask_for_next_resource` closes nothing that is held. -/
theorem spares_asked (h : Holding s k grantedOn) {dial : Dial} (hFree : k.Free dial)
    (job : LocalJob) : Spares s (asked dial job).out := by
  have hClose : ∀ fd : Nat, k.files fd = none → ¬ Held s fd := fun fd hNone hHeld =>
    h.files_ne_none hHeld hNone
  intro e he
  cases hNext : job.nextReq with
  | nil =>
      simp only [asked, hNext, List.mem_singleton] at he
      rw [he]
      exact ⟨by simp, by simp⟩
  | cons req rest =>
      cases dial <;> simp only [asked, hNext, List.mem_cons, List.not_mem_nil, or_false] at he
      · rw [he]
        exact ⟨by simp, fun fd hFd => by cases hFd; exact hClose _ hFree⟩
      · rcases he with rfl | rfl
        · exact ⟨by simp, by simp⟩
        · exact ⟨by simp, fun fd hFd => by cases hFd; exact hClose _ hFree⟩
      · rcases he with rfl | rfl <;> exact ⟨by simp, by simp⟩

/-- The connection of a grant, noted for the job. -/
def noted (s : ClientState) (k : Kernel) (grantedOn : Nat → List (Option Nat)) (fd : Int)
    (text : Text) : Nat → List (Option Nat) :=
  match Process.granting s fd text with
  | some addr => Function.update grantedOn addr (k.files fd :: grantedOn addr)
  | none => grantedOn

/-- `client_to_myserver` on a line read from an open descriptor. -/
theorem respects_line (h : Holding s k grantedOn) (hTidy : Tidy s) (hReg : Registered k)
    {fd : Int} (hOpen : k.files fd ≠ none) {dial : Dial} (hFree : k.Free dial) (text : Text)
    (now : Int) :
    Respects s k grantedOn (clientStep s (.line fd text now dial))
      (noted s k grantedOn fd text) := by
  have hIdle : Respects s k grantedOn (s, []) grantedOn :=
    respects_harmless hTidy h hReg (by intro e he; simp at he)
  simp only [clientStep]
  cases hParse : parseRemote text with
  | granted jobId =>
      cases hOwner : s.owner fd with
      | none =>
          simp only [clientToMyserver, hOwner]
          have hNote : noted s k grantedOn fd text = grantedOn := by
            simp [noted, Process.granting, hParse, hOwner]
          rw [hNote]
          exact hIdle
      | some job =>
          simp only [clientToMyserver, hOwner]
          obtain ⟨hEntry, hJob⟩ := (ClientState.owner_eq_some hTidy.addrKeys).mp hOwner
          by_cases hId : job.jobId = jobId
          · have hNext : job.nextReq ≠ [] := by
              obtain ⟨-, x, hx, hAddr, hNext, -⟩ := hTidy.entries _ hEntry
              rwa [hTidy.addrKeys x hx job hJob hAddr] at hNext
            have hNote : noted s k grantedOn fd text =
                Function.update grantedOn job.addr (k.files fd :: grantedOn job.addr) := by
              simp [noted, Process.granting, hParse, hOwner, hId, hNext]
            have hMove : Move .other s _ _ :=
              clientToMyserver_move hTidy now dial fd (.granted jobId)
            simp only [clientToMyserver, hOwner, if_pos hId] at hMove
            have hAdvanced := h.advance hTidy hEntry hJob hOpen now
            have hChanged := advance_changed hTidy.addrKeys hJob fd now
            have hKeys := hChanged.addrKeys hTidy.addrKeys (by
              rintro x ⟨⟩
              exact LocalJob.advance_addr job fd now)
            have hIdInt : IsInt (LocalJob.advance job fd now).jobId := by
              rw [LocalJob.advance_jobId]
              exact hTidy.ids job hJob
            have hStillFree : (k.monitor fd false).Free dial := by
              cases dial <;> exact hFree
            have hAsk := hAdvanced.ask hKeys hChanged.mem_self hIdInt hStillFree
            have hOut := (askForNextResource_changed hKeys hChanged.mem_self hIdInt dial).2
            rw [if_pos hId, hNote]
            refine ⟨hMove.tidy hTidy, hAsk, ?_, ?_⟩
            · show Faithful s k grantedOn (.epollDel fd :: _)
              rw [hOut]
              have hAll : Spares s ([.epollDel fd] ++
                  (asked dial (LocalJob.advance job fd now)).out) :=
                Spares.append (by simp [Spares]) (spares_asked h hFree _)
              exact hAll.faithful
            · show Registered ((k.monitor fd false).performAll _)
              rw [hOut]
              exact (hReg.monitor (by simp)).ask dial _
          · have hNote : noted s k grantedOn fd text = grantedOn := by
              simp [noted, Process.granting, hParse, hOwner, hId]
            rw [if_neg hId, hNote]
            exact hIdle
  | reject =>
      have hNote : noted s k grantedOn fd text = grantedOn := by
        simp [noted, Process.granting, hParse]
      rw [hNote]
      simp only [clientToMyserver]
      cases hOwner : s.owner fd with
      | none => exact hIdle
      | some job => exact respects_reject h hTidy hReg hOwner
  | _ =>
      have hNote : noted s k grantedOn fd text = grantedOn := by
        simp [noted, Process.granting, hParse]
      rw [hNote]
      exact hIdle

/-- A JOB_REQUEST that replaces nothing in flight. -/
theorem respects_request (h : Holding s k grantedOn) (hTidy : Tidy s) (hReg : Registered k)
    {dial : Dial} (hFree : k.Free dial) {job : LocalJob} (hId : IsInt job.jobId)
    (hNew : job = makeJob s job.jobId job.nextReq job.timer)
    (hIdle : ∀ old ∈ s.jobs, old.jobId = job.jobId → ¬ InFlight s old) :
    Respects s k grantedOn (askForNextResource dial (s.insertJob job) job) grantedOn ∧
      ∀ fd, Held (askForNextResource dial (s.insertJob job) job).1 fd → Held s fd := by
  have hBrk : job.addr = s.brk := by
    rw [hNew]
    rfl
  have hNothing : job.grantedReqs = [] := by
    rw [hNew]
    rfl
  -- the job is stored and holds nothing
  have hInsert := insertJob_replaces hTidy hNew
  have hStored : Holding (s.insertJob job) k grantedOn := by
    refine h.carry (fun x hx => ?_) (fun e he => .inl he) (Nat.le_succ _)
      (fun _ _ _ => ⟨rfl, rfl⟩)
    rcases (hInsert.jobs x).mp hx with hx | ⟨hx, -⟩
    · cases hx
      exact .inl ⟨hNothing, h.unborn _ hBrk.ge⟩
    · exact .inr ⟨x, (ClientState.mem_jobs_removeJob.mp hx).1, rfl, rfl⟩
  have hKeys : (s.insertJob job).AddrKeys := by
    refine hInsert.addrKeys (fun x hx y hy => ?_) (by rintro x ⟨⟩; rfl)
    exact hTidy.addrKeys x (ClientState.mem_jobs_removeJob.mp hx).1 y
      (ClientState.mem_jobs_removeJob.mp hy).1
  obtain ⟨hChanged, hOut⟩ := request_changed hTidy hId hNew dial
  have hTidy' := (request_move hTidy hId hNew dial).tidy (tidy_removeJob hTidy hIdle)
  constructor
  · refine ⟨hTidy', hStored.ask hKeys hInsert.mem_self hId hFree, ?_, ?_⟩
    · rw [hOut]
      exact (spares_asked h hFree job).faithful
    · rw [hOut]
      exact hReg.ask dial job
  · rintro fd ⟨x, hx, granted, hGranted, hFd⟩
    rcases (hChanged.jobs x).mp hx with hx | ⟨hx, -⟩
    · cases hx
      rw [asked_grantedReqs, hNothing] at hGranted
      simp at hGranted
    · exact ⟨x, (ClientState.mem_jobs_removeJob.mp hx).1, granted, hGranted, hFd⟩

theorem harmless_status (s : ClientState) (jobId : Text) (nodes : Table nodeCallbacks)
    (timer : Int) (dial : Dial) :
    Harmless (erlangToC nodes timer dial s (.jobStatus jobId)).2 := by
  simp only [erlangToC]
  cases s.findJob (atoi jobId) with
  | none => exact harmless_toErlang _ _
  | some job =>
      by_cases hNext : job.nextReq = []
      · simpa only [hNext, if_true] using harmless_toErlang _ _
      · simpa only [hNext, if_false] using harmless_toErlang _ _

/-- `erlang_to_C` on a line that replaces nothing in flight. -/
theorem respects_erlang (h : Holding s k grantedOn) (hTidy : Tidy s) (hReg : Registered k)
    {instruction : Text} (hIdle : ReplacesIdle s instruction) {dial : Dial} (hFree : k.Free dial)
    (timer : Int) (nodes : Table nodeCallbacks) :
    Respects s k grantedOn (clientStep s (.erlang instruction timer nodes dial)) grantedOn ∧
      ∀ fd, Held (clientStep s (.erlang instruction timer nodes dial)).1 fd → Held s fd := by
  simp only [clientStep]
  cases hParse : parseErlang instruction with
  | jobRequest jobId destinations =>
      cases destinations with
      | nil => exact ⟨respects_harmless hTidy h hReg (harmless_toErlang _ _), fun _ => id⟩
      | cons token tokens =>
          refine respects_request h hTidy hReg hFree (atoi_isInt jobId) rfl ?_
          exact fun old hOld hSame => hIdle (atoi jobId) (by simp [stored, hParse]) old hOld hSame
  | jobRelease jobId =>
      cases hFind : s.findJob (atoi jobId) with
      | none =>
          simp only [erlangToC, hFind]
          exact ⟨respects_harmless hTidy h hReg (by intro e he; simp at he), fun _ => id⟩
      | some job =>
          obtain ⟨hJob, -⟩ := ClientState.findJob_eq_some.mp hFind
          have hChanged := tearDown_release_changed hTidy hJob
          simp only [erlangToC, hFind]
          constructor
          · have hEnd := respects_tearDown h hTidy hReg hJob
              (by intro e he; simp at he : Harmless [])
            simpa [releaseResources, released] using hEnd
          · rintro fd ⟨x, hx, granted, hGranted, hFd⟩
            have hx := (((hChanged.jobs x).mp hx).resolve_left (by simp)).1
            exact ⟨x, hx, granted, hGranted, hFd⟩
  | jobStatus jobId =>
      have hSame : (erlangToC nodes timer dial s (.jobStatus jobId)).1 = s := by
        have hQuery := @clientStep_query s (.erlang instruction timer nodes dial)
          (by simp [isQuery, hParse])
        simpa only [clientStep, hParse] using hQuery
      have hQuiet := respects_harmless hTidy h hReg (harmless_status s jobId nodes timer dial)
      have hPair : (s, (erlangToC nodes timer dial s (.jobStatus jobId)).2) =
          erlangToC nodes timer dial s (.jobStatus jobId) := Prod.ext hSame.symm rfl
      rw [hPair] at hQuiet
      exact ⟨hQuiet, fun fd hFd => by rwa [hSame] at hFd⟩
  | getNodes =>
      have hQuiet : Harmless [.nodes (getNodesInstance nodes)] := by
        intro e he
        rw [List.mem_singleton.mp he]
        exact ⟨rfl, by simp⟩
      exact ⟨respects_harmless hTidy h hReg hQuiet, fun _ => id⟩
  | ignored => exact ⟨respects_harmless hTidy h hReg (by intro e he; simp at he), fun _ => id⟩

end

/-! ## One worker -/

/-- In a turn that reads `read fd`: neither does the disconnect branch close a descriptor
that a job holds, nor is a job with a request in flight replaced. -/
def Calm (s : ClientState) (read : Int → Reading) : Handler → Prop
  | .remote fd => read fd = .closed → ¬ Held s fd
  | .erlang fd => ∀ text ∈ (read fd).lines, ReplacesIdle s text
  | _ => True

instance (s : ClientState) (read : Int → Reading) : ∀ h, Decidable (Calm s read h)
  | .remote fd => inferInstanceAs (Decidable (read fd = .closed → ¬ Held s fd))
  | .erlang fd => inferInstanceAs (Decidable (∀ text ∈ (read fd).lines, ReplacesIdle s text))
  | .idle => inferInstanceAs (Decidable True)
  | .sweep _ => inferInstanceAs (Decidable True)
  | .leavingErlang => inferInstanceAs (Decidable True)
  | .leaving _ => inferInstanceAs (Decidable True)

def Undisturbed {W : Type} [DecidableEq W] (p : Process W) : LoopEvent W → Prop
  | .turn w env => Calm p.client (fun fd => (p.read fd env).2.2) (p.handler w)
  | _ => True

instance {W : Type} [DecidableEq W] (p : Process W) : ∀ e, Decidable (Undisturbed p e)
  | .turn w env =>
      inferInstanceAs (Decidable (Calm p.client (fun fd => (p.read fd env).2.2) (p.handler w)))
  | .connectErlang _ _ => inferInstanceAs (Decidable True)
  | .connectClient _ _ => inferInstanceAs (Decidable True)
  | .tick _ _ => inferInstanceAs (Decidable True)
  | .readable _ _ => inferInstanceAs (Decidable True)
  | .writable _ _ => inferInstanceAs (Decidable True)

structure Owning (p : Process Unit) : Prop where
  tidy : Tidy p.client
  holding : Holding p.client p.kernel p.grantedOn
  registered : Registered p.kernel
  remote : ∀ fd, p.handler () = .remote fd → p.kernel.files fd ≠ none
  erlang : ∀ fd, p.handler () = .erlang fd → fd = p.erlangfd ∧ ¬ Held p.client fd

theorem owning_init (capacity : Resource → Int) : Owning (Process.init capacity) where
  tidy := tidy_init
  holding := by
    constructor <;> simp [Process.init, ClientState.jobs, ClientState.entries,
      ClientState.init, Held]
  registered := by simp [Registered, Process.init, Kernel.init]
  remote := by simp [Process.init]
  erlang := by simp [Process.init]

section

variable {p : Process Unit}

/-- The worker is done with its event; only the kernel may have changed, at
descriptors nobody holds. -/
theorem Owning.rest (h : Owning p) {q : Process Unit} (hClient : q.client = p.client)
    (hGrantedOn : q.grantedOn = p.grantedOn) (hReg : Registered q.kernel)
    (hKernel : ∀ fd, Held p.client fd → p.kernel.files fd ≠ none →
      Kernel.SameAt p.kernel q.kernel fd)
    (hIdle : ∀ fd, q.handler () ≠ .remote fd ∧ q.handler () ≠ .erlang fd) : Owning q where
  tidy := hClient ▸ h.tidy
  holding := by
    rw [hClient, hGrantedOn]
    exact h.holding.carry (fun x hx => .inr ⟨x, hx, rfl, rfl⟩) (fun e he => .inl he) (le_refl _)
      hKernel
  registered := hReg
  remote fd hFd := absurd hFd (hIdle fd).1
  erlang fd hFd := absurd hFd (hIdle fd).2

theorem Owning.accept (h : Owning p) (hIdle : p.handler () = .idle) {accepted : Accepted}
    (hFree : accepted.Free p.kernel) (erlangfd : Int) :
    Owning { p.accept accepted with erlangfd := erlangfd } := by
  have hOther : ∀ (fd : Int) (new : Nat), p.kernel.files new = none → p.kernel.files fd ≠ none →
      fd ≠ new := by
    rintro fd new hNone hOpen rfl
    exact hOpen hNone
  cases accepted with
  | refused =>
      exact h.rest rfl rfl h.registered (fun _ _ _ => ⟨rfl, rfl⟩)
        (fun fd => by simp [Process.accept, hIdle])
  | epollFails new =>
      refine h.rest rfl rfl ((h.registered.openFile new).closeFile new) ?_
        (fun fd => by simp [Process.accept, hIdle])
      intro fd _ hOpen
      have hNe := hOther fd new hFree hOpen
      simp [Kernel.SameAt, Process.accept, Kernel.closeFile, Kernel.openFile,
        Function.update_of_ne hNe]
  | added new =>
      refine h.rest rfl rfl ((h.registered.openFile new).monitor fun _ => by simp [Kernel.openFile])
        ?_ (fun fd => by simp [Process.accept, hIdle])
      intro fd _ hOpen
      have hNe := hOther fd new hFree hOpen
      simp [Kernel.SameAt, Process.accept, Kernel.monitor, Kernel.openFile,
        Function.update_of_ne hNe]

/-- The next handler, for an event on a registered descriptor. -/
theorem Owning.dispatch (h : Owning p) {fd : Int} (hMonitored : p.kernel.monitored fd = true) :
    Owning (p.setHandler () (if fd = p.erlangfd then .erlang fd else .remote fd)) := by
  have hOpen := h.registered fd hMonitored
  have hFree : ¬ Held p.client fd := by
    intro hHeld
    rw [h.holding.unmonitored fd hHeld] at hMonitored
    cases hMonitored
  refine ⟨h.tidy, h.holding, h.registered, fun fd' hFd' => ?_, fun fd' hFd' => ?_⟩
  · by_cases hErlang : fd = p.erlangfd
    · simp [Process.setHandler, hErlang] at hFd'
    · simp only [Process.setHandler, Function.update_self, if_neg hErlang,
        Handler.remote.injEq] at hFd'
      exact hFd' ▸ hOpen
  · by_cases hErlang : fd = p.erlangfd
    · simp only [Process.setHandler, Function.update_self, if_pos hErlang,
        Handler.erlang.injEq] at hFd'
      subst hFd'
      exact ⟨hErlang, hFree⟩
    · simp [Process.setHandler, hErlang] at hFd'

/-- A line read from a descriptor does not close it. -/
theorem close_not_mem_line (h : Owning p) {fd : Int} (hOpen : p.kernel.files fd ≠ none)
    {dial : Dial} (hFree : p.kernel.Free dial) (text : Text) (now : Int) :
    Effect.close fd ∉ (clientStep p.client (.line fd text now dial)).2 := by
  have hDial : ∀ job, Effect.close fd ∉ (asked dial job).out := by
    intro job
    cases hNext : job.nextReq with
    | nil => simp [asked, hNext]
    | cons req rest =>
        cases dial with
        | noSocket => simp [asked, hNext]
        | connectFails new =>
            simp only [asked, hNext, List.mem_singleton, Effect.close.injEq]
            rintro rfl
            exact hOpen hFree
        | epollFails new =>
            simp only [asked, hNext, List.mem_cons, List.not_mem_nil, or_false, reduceCtorEq,
              false_or, Effect.close.injEq]
            rintro rfl
            exact hOpen hFree
        | connected new => simp [asked, hNext]
  simp only [clientStep]
  cases parseRemote text with
  | granted jobId =>
      cases hOwner : p.client.owner fd with
      | none => simp [clientToMyserver, hOwner]
      | some job =>
          obtain ⟨-, hJob⟩ := (ClientState.owner_eq_some h.tidy.addrKeys).mp hOwner
          by_cases hId : job.jobId = jobId
          · have hChanged := advance_changed h.tidy.addrKeys hJob fd now
            have hKeys := hChanged.addrKeys h.tidy.addrKeys (by
              rintro x ⟨⟩
              exact LocalJob.advance_addr job fd now)
            have hIdInt : IsInt (LocalJob.advance job fd now).jobId := by
              rw [LocalJob.advance_jobId]
              exact h.tidy.ids job hJob
            have hOut := (askForNextResource_changed hKeys hChanged.mem_self hIdInt dial).2
            simp only [clientToMyserver, hOwner, if_pos hId, List.mem_cons, reduceCtorEq, false_or]
            rw [hOut]
            exact hDial _
          · simp [clientToMyserver, hOwner, hId]
  | reject =>
      cases hOwner : p.client.owner fd with
      | none => simp [clientToMyserver, hOwner]
      | some job =>
          obtain ⟨hEntry, hJob⟩ := (ClientState.owner_eq_some h.tidy.addrKeys).mp hOwner
          simp only [clientToMyserver, hOwner, List.mem_append, not_or]
          constructor
          · intro (hClose : Effect.close fd ∈ released job)
            obtain ⟨granted, hGranted, hFd⟩ := held_of_touched_released hClose rfl
            exact h.holding.entries _ hEntry ⟨job, hJob, granted, hGranted, hFd⟩
          · intro hClose
            exact absurd (harmless_toErlang _ _ _ hClose).1 (by simp [touched])
  | _ => simp [clientToMyserver]

/-- Effects of the server side change neither the kernel nor the client. -/
private theorem performAll_harmless {out : List Effect} (h : Harmless out) (k : Kernel) :
    k.performAll out = k := performAll_quiet k fun e he => (h e he).1

theorem held_disconnect (hTidy : Tidy p.client) {fd fd' : Int}
    (hHeld : Held (clientStep p.client (.disconnect fd)).1 fd') : Held p.client fd' := by
  simp only [clientStep, handleOutboundDisconnect] at hHeld
  cases hOwner : p.client.owner fd with
  | none =>
      simp only [hOwner] at hHeld
      exact hHeld
  | some job =>
      obtain ⟨-, hJob⟩ := (ClientState.owner_eq_some hTidy.addrKeys).mp hOwner
      have hChanged := @reject_changed p.client hTidy fd job hJob
      simp only [hOwner] at hHeld
      obtain ⟨x, hx, granted, hGranted, hFd⟩ := hHeld
      have hx := (((hChanged.jobs x).mp hx).resolve_left (by simp)).1
      exact ⟨x, hx, granted, hGranted, hFd⟩

/-- The disconnect branches close a descriptor that is not held. -/
theorem spares_close {fd : Int} (hFree : ¬ Held p.client fd) :
    Spares p.client [.epollDel fd, .close fd] := by
  intro e he
  simp only [List.mem_cons, List.not_mem_nil, or_false] at he
  rcases he with rfl | rfl
  · exact ⟨by simp, by simp⟩
  · exact ⟨by simp, fun fd' hFd' => by cases hFd'; exact hFree⟩

theorem noteGrant_grantedOn (q : Process Unit) (fd : Int) (text : Text) :
    (q.noteGrant fd text).grantedOn = noted q.client q.kernel q.grantedOn fd text := by
  unfold Process.noteGrant noted
  cases Process.granting q.client fd text <;> rfl

theorem noteGrant_kernel (q : Process Unit) (fd : Int) (text : Text) :
    (q.noteGrant fd text).kernel = q.kernel := by
  unfold Process.noteGrant
  cases Process.granting q.client fd text <;> rfl

theorem noteGrant_handler (q : Process Unit) (fd : Int) (text : Text) :
    (q.noteGrant fd text).handler = q.handler := by
  unfold Process.noteGrant
  cases Process.granting q.client fd text <;> rfl

/-- Between what the server side did and a close, the client side acts as if alone. -/
private theorem Faithful.after_harmless {before out after : List Effect}
    (hBefore : Harmless before) (h : Faithful p.client p.kernel p.grantedOn out)
    (hAfter : Spares p.client after) :
    Faithful p.client p.kernel p.grantedOn (before ++ out ++ after) := by
  refine Faithful.around hBefore.spares ?_ hAfter
  rw [performAll_harmless hBefore]
  exact h

/-- The worker leaves its event and nothing else has changed. -/
private theorem Owning.leaves (h : Owning p) {q : Process Unit} (hClient : q.client = p.client)
    (hGrantedOn : q.grantedOn = p.grantedOn) (hKernel : q.kernel = p.kernel)
    (hIdle : ∀ fd, q.handler () ≠ .remote fd ∧ q.handler () ≠ .erlang fd) :
    Owning q ∧ Faithful p.client p.kernel p.grantedOn [] := by
  refine ⟨h.rest hClient hGrantedOn (hKernel ▸ h.registered) (fun fd _ _ => ?_) hIdle,
    Spares.faithful (by intro e he; simp at he)⟩
  rw [hKernel]
  exact ⟨rfl, rfl⟩

/-- The Erlang end is at the end of its stream: its descriptor, which nobody holds, is
closed. -/
private theorem Owning.erlangEnd (h : Owning p) (hUnheld : ¬ Held p.client p.erlangfd)
    (env : Env) (fd : Int) :
    Owning (((p.hear fd env).actClient
      (p.client, [.epollDel p.erlangfd, .close p.erlangfd])).setHandler () .leavingErlang) := by
  refine h.rest rfl rfl (h.registered.performAll (by simp)) ?_
    (fun fd => by simp [Process.setHandler])
  intro fd' hHeld _
  refine performAll_sameAt p.kernel fun e he hFd => ?_
  simp only [List.mem_cons, List.not_mem_nil, or_false] at he
  have hSame : fd' = p.erlangfd := by
    rcases he with rfl | rfl <;> exact (Option.some.inj hFd).symm
  exact hUnheld (hSame ▸ hHeld)

/-- A line from another agent: the server side and then the client side have it. -/
private theorem Owning.remoteLine (h : Owning p) {env : Env} {fd : Int}
    (hHandler : p.handler () = .remote fd) (hFree : p.kernel.Free env.dial) (text : Text) :
    Owning ((((p.hear fd env).noteGrant fd text).actServer
        (serverMessage env.peers p.server fd text)).actClient
        (clientStep p.client (.line fd text env.now env.dial))) ∧
      Faithful p.client p.kernel p.grantedOn (remoteLine p fd text env) := by
  have hOpen := h.remote fd hHandler
  have hServer := harmless_serverMessage env.peers p.server fd text
  have hEnd := respects_line h.holding h.tidy h.registered hOpen hFree text env.now
  have hKernel : ((p.hear fd env).noteGrant fd text).kernel.performAll
      (serverMessage env.peers p.server fd text).2 = p.kernel := by
    rw [noteGrant_kernel]
    exact performAll_harmless hServer p.kernel
  have hNoted : ((p.hear fd env).noteGrant fd text).grantedOn =
      noted p.client p.kernel p.grantedOn fd text := noteGrant_grantedOn _ fd text
  have hStill : ((p.hear fd env).noteGrant fd text).handler () = .remote fd := by
    rw [noteGrant_handler]
    exact hHandler
  constructor
  · refine ⟨hEnd.tidy, ?_, ?_, ?_, ?_⟩
    · show Holding _
        ((((p.hear fd env).noteGrant fd text).kernel.performAll _).performAll _) _
      rw [hKernel]
      exact hNoted ▸ hEnd.holding
    · show Registered
        ((((p.hear fd env).noteGrant fd text).kernel.performAll _).performAll _)
      rw [hKernel]
      exact hEnd.registered
    · intro fd' hFd'
      have hSame : fd' = fd := Handler.remote.inj (Eq.trans (Eq.symm hFd') hStill)
      show (((((p.hear fd env).noteGrant fd text).kernel.performAll _).performAll _).files fd') ≠ _
      rw [hKernel, hSame]
      exact performAll_open hOpen (close_not_mem_line h hOpen hFree text env.now)
    · intro fd' hFd'
      cases Eq.trans (Eq.symm hFd') hStill
  · have hAll := hEnd.faithful.after_harmless hServer (by intro e he; simp at he : Spares _ [])
    simpa [EventLoop.remoteLine] using hAll

/-- Another agent has disconnected: the server side releases, the client side rejects, and the
descriptor, which nobody holds, is closed. -/
private theorem Owning.remoteEnd (h : Owning p) {env : Env} {fd : Int}
    (hUnheld : ¬ Held p.client fd) :
    Owning ((((((p.hear fd env).actServer (releaseClientByFd env.peers p.server fd)).actClient
        (clientStep p.client (.disconnect fd))).actClient
        ((clientStep p.client (.disconnect fd)).1, [.epollDel fd, .close fd])).setHandler ()
        (.leaving fd))) ∧
      Faithful p.client p.kernel p.grantedOn (remoteEnd p fd env) := by
  have hServer := harmless_releaseClientByFd env.peers p.server fd
  have hEnd := respects_disconnect h.holding h.tidy h.registered fd
  have hKernel : (p.hear fd env).kernel.performAll
      (releaseClientByFd env.peers p.server fd).2 = p.kernel :=
    performAll_harmless hServer p.kernel
  -- what is held after the rejection was held before
  have hLater : ∀ fd', Held (clientStep p.client (.disconnect fd)).1 fd' → fd' ≠ fd := by
    rintro fd' hHeld rfl
    exact hUnheld (held_disconnect h.tidy hHeld)
  constructor
  · refine ⟨hEnd.tidy, ?_, ?_, ?_, ?_⟩
    · show Holding _ ((((p.hear fd env).kernel.performAll _).performAll _).performAll
        [.epollDel fd, .close fd]) _
      rw [hKernel]
      refine hEnd.holding.carry (fun x hx => .inr ⟨x, hx, rfl, rfl⟩) (fun e he => .inl he)
        (le_refl _) ?_
      intro fd' hHeld _
      refine performAll_sameAt _ fun e he hFd => hLater fd' hHeld ?_
      simp only [List.mem_cons, List.not_mem_nil, or_false] at he
      rcases he with rfl | rfl <;> exact (Option.some.inj hFd).symm
    · show Registered ((((p.hear fd env).kernel.performAll _).performAll _).performAll
        [.epollDel fd, .close fd])
      rw [hKernel]
      exact hEnd.registered.performAll (by simp)
    · simp [Process.setHandler]
    · simp [Process.setHandler]
  · exact hEnd.faithful.after_harmless hServer (spares_close hUnheld)

/-- **A turn of a loop keeps the ownership**, and what it sends and closes is
faithful to it. -/
theorem Owning.turn (h : Owning p) {env : Env} (hFree : p.kernel.Free env.dial)
    (hOk : Undisturbed p (.turn () env)) :
    Owning (turn p () env) ∧ Faithful p.client p.kernel p.grantedOn (turnEffects p () env) := by
  cases hHandler : p.handler () with
  | idle =>
      simp only [EventLoop.turn, turnEffects, hHandler]
      exact ⟨h, Spares.faithful (by intro e he; simp at he)⟩
  | sweep ids =>
      cases ids with
      | nil =>
          simp only [EventLoop.turn, turnEffects, hHandler]
          exact h.leaves rfl rfl rfl fun fd => by simp [Process.setHandler]
      | cons id ids =>
          have hEnd := respects_timeOut h.holding h.tidy h.registered id
          simp only [EventLoop.turn, turnEffects, hHandler]
          refine ⟨⟨hEnd.tidy, hEnd.holding, hEnd.registered, ?_, ?_⟩, hEnd.faithful⟩
          · simp [Process.setHandler]
          · simp [Process.setHandler]
  | leavingErlang =>
      simp only [EventLoop.turn, turnEffects, hHandler]
      exact h.leaves rfl rfl rfl fun fd => by simp [Process.setHandler]
  | leaving fd =>
      simp only [EventLoop.turn, turnEffects, hHandler]
      exact h.leaves rfl rfl rfl fun fd => by simp [Process.setHandler]
  | erlang fd =>
      obtain ⟨hErlang, hUnheld⟩ := h.erlang fd hHandler
      simp only [Undisturbed, hHandler, Calm] at hOk
      simp only [EventLoop.turn, turnEffects, hHandler]
      cases hRead : (p.read fd env).2.2 with
      | line text =>
          have hIdle := hOk text (by simp [hRead, Reading.lines])
          obtain ⟨hEnd, hHeld⟩ :=
            respects_erlang h.holding h.tidy h.registered hIdle hFree env.now env.nodes
          refine ⟨⟨hEnd.tidy, hEnd.holding, hEnd.registered, ?_, ?_⟩, hEnd.faithful⟩
          · intro fd' (hFd' : p.handler () = .remote fd')
            rw [hHandler] at hFd'
            cases hFd'
          · intro fd' (hFd' : p.handler () = .erlang fd')
            rw [hHandler] at hFd'
            cases hFd'
            exact ⟨hErlang, fun hNow => hUnheld (hHeld fd hNow)⟩
      | more => exact h.leaves rfl rfl rfl fun fd => by simp [Process.setHandler]
      | closed =>
          rw [hErlang] at hUnheld
          exact ⟨h.erlangEnd hUnheld env fd, (spares_close hUnheld).faithful⟩
  | remote fd =>
      simp only [Undisturbed, hHandler, Calm] at hOk
      simp only [EventLoop.turn, turnEffects, hHandler]
      cases hRead : (p.read fd env).2.2 with
      | line text => exact h.remoteLine hHandler hFree text
      | more => exact h.leaves rfl rfl rfl fun fd => by simp [Process.setHandler]
      | closed => exact h.remoteEnd (hOk hRead)

theorem Owning.step (h : Owning p) {e : LoopEvent Unit} (hEnabled : Enabled p e)
    (hOk : Undisturbed p e) :
    Owning (loopStep p e) ∧ Faithful p.client p.kernel p.grantedOn (stepEffects p e) := by
  have hNone : Faithful p.client p.kernel p.grantedOn [] :=
    Spares.faithful (by intro e he; simp at he)
  cases e with
  | connectErlang w accepted => exact ⟨h.accept hEnabled.1 hEnabled.2 _, hNone⟩
  | connectClient w accepted =>
      have hAccepted := h.accept hEnabled.1 hEnabled.2 (p.accept accepted).erlangfd
      exact ⟨hAccepted, hNone⟩
  | tick w now =>
      exact ⟨h.rest rfl rfl h.registered (fun _ _ _ => ⟨rfl, rfl⟩)
        (fun fd => by simp [loopStep, Process.setHandler]), hNone⟩
  | readable w fd => exact ⟨h.dispatch hEnabled.2, hNone⟩
  | writable w fd =>
      by_cases hErlang : fd = p.erlangfd
      · have hDispatched := h.dispatch hEnabled.2
        rw [if_pos hErlang] at hDispatched
        simp only [loopStep, stepEffects, if_pos hErlang]
        exact ⟨hDispatched, hNone⟩
      · have hEnd := respects_sendRequest h.holding h.tidy h.registered fd
        have hIdle : p.handler () = .idle := hEnabled.1
        simp only [loopStep, stepEffects, if_neg hErlang]
        refine ⟨⟨hEnd.tidy, hEnd.holding, hEnd.registered, ?_, ?_⟩, hEnd.faithful⟩
        · intro fd' (hFd' : p.handler () = .remote fd')
          rw [hIdle] at hFd'
          cases hFd'
        · intro fd' (hFd' : p.handler () = .erlang fd')
          rw [hIdle] at hFd'
          cases hFd'
  | turn w env => exact h.turn hEnabled.1 hOk

end

/-! ## Every run -/

/-- Every `provider_fd` is open and leads to the connection on which the grant was
received. -/
def Owned {W : Type} (p : Process W) : Prop :=
  ∀ job ∈ p.client.jobs, List.Forall₂
    (fun granted c => 0 ≤ granted.providerFd → c ≠ none ∧ p.kernel.files granted.providerFd = c)
    job.grantedReqs (p.grantedOn job.addr)

instance {W : Type} (p : Process W) : Decidable (Owned p) :=
  decidable_of_iff (∀ job ∈ p.client.jobs,
      job.grantedReqs.length = (p.grantedOn job.addr).length ∧
        ∀ x ∈ job.grantedReqs.zip (p.grantedOn job.addr), 0 ≤ x.1.providerFd →
          x.2 ≠ none ∧ p.kernel.files x.1.providerFd = x.2)
    (forall₂_congr fun _ _ => by rw [List.forall₂_iff_zip]; simp only [Prod.forall])

/-- **Sole ownership of held provider connections.**  One handler at a time, any lines and
ends of connections in any chunking, any reuse of descriptors: as long as no disconnect
branch runs on a held descriptor and no job in flight is replaced, every `provider_fd`
leads to the connection of its grant, a RELEASE goes there, and only
`release_resources` closes it. -/
theorem sole_ownership {capacity : Resource → Int} {es : List (LoopEvent Unit)}
    (hMeets : Meets loopStep (fun p e => Enabled p e ∧ Undisturbed p e)
      (Process.init capacity) es) :
    Owned (run loopStep (Process.init capacity) es) ∧
      ∀ e, Enabled (run loopStep (Process.init capacity) es) e →
        Undisturbed (run loopStep (Process.init capacity) es) e →
        Faithful (run loopStep (Process.init capacity) es).client
          (run loopStep (Process.init capacity) es).kernel
          (run loopStep (Process.init capacity) es).grantedOn
          (stepEffects (run loopStep (Process.init capacity) es) e) := by
  have hOwning : Owning (run loopStep (Process.init capacity) es) :=
    run_invariant Owning (fun p e h hOk => (h.step hOk.1 hOk.2).1) (owning_init capacity) hMeets
  refine ⟨fun job hJob => ?_, fun e hEnabled hOk => (hOwning.step hEnabled hOk).2⟩
  exact (hOwning.holding.granted job hJob).imp fun _ _ hGranted _ => hGranted.2

/-- What arrives in a turn. -/
def arrival (recv : Recv) (dial : Dial) : Env :=
  ⟨recv, 0, tablahashCreate _, dial, fun _ => none⟩

/-- Job 1001 asks for a cpu on descriptor 5. -/
def asking : List (LoopEvent Unit) :=
  [.connectErlang () (.added 4), .readable () 4,
    .turn () (arrival (.data "JOB_REQUEST 1001 @10.0.0.1:cpu:1\n".toList) (.connected 5)),
    .turn () (arrival .again .noSocket), .writable () 5, .readable () 5]

/-- It is granted, and nothing more arrives. -/
def grantedAlone : List (LoopEvent Unit) :=
  asking ++ [.turn () (arrival (.data "GRANTED 1001\n".toList) .noSocket),
    .turn () (arrival .again .noSocket)]

theorem sole_ownership_grantedAlone :
    (run loopStep (Process.init fun _ => 0) grantedAlone).client.jobs ≠ [] ∧
      Owned (run loopStep (Process.init fun _ => 0) grantedAlone) := by
  have hMeets : Meets loopStep (fun p e => Enabled p e ∧ Undisturbed p e)
      (Process.init fun _ => 0) grantedAlone := by decide +kernel
  exact ⟨by decide +kernel, (sole_ownership hMeets).1⟩

/-- The grant and the end of the connection arrive together. -/
def grantedAndClosed : List (LoopEvent Unit) :=
  asking ++ [.turn () (arrival (.data "GRANTED 1001\n".toList) .noSocket),
    .turn () (arrival .eof .noSocket)]

/-- Another node connects and gets descriptor 5; the scheduler speaks again. -/
def reused : List (LoopEvent Unit) :=
  grantedAndClosed ++
    [.turn () (arrival .again .noSocket), .connectClient () (.added 5), .readable () 4]

/-- The disconnect branch closes the connection that the job holds; later the RELEASE
goes to the node that connected in the meantime, as connection 2. -/
theorem grant_with_eof_is_closed :
    Meets loopStep Enabled (Process.init fun _ => 0) reused ∧
      ¬ Owned (run loopStep (Process.init fun _ => 0) grantedAndClosed) ∧
      (some 2, Effect.send 5 (releaseLine 1001 "cpu".toList 1)) ∈
        (run loopStep (Process.init fun _ => 0) reused).kernel.resolve
          (stepEffects (run loopStep (Process.init fun _ => 0) reused)
            (.turn () (arrival (.data "JOB_RELEASE 1001\n".toList) .noSocket))) := by
  decide +kernel

end ResourceAgent.Ports.Ownership
