import ResourceAgent.Ports.JobFate
import ResourceAgent.Ports.Replacement

/-!
# From the raw JOB_REQUEST line to JOB_GRANTED

A job is reported as granted when no request of its list is left.  `erlang_to_C` makes that
list from the line, and what does not get into it is not asked for: the copy of the line is
cut at 1023 bytes, at most 32 tokens are read, a token that does not split is skipped, and the
pieces of a token are cut to the size of their fields.  And what gets into it need not be an
address: `ask_for_next_resource` does not look at the result of `inet_pton`, which leaves
0.0.0.0 where the text is none.

`granted_means_all` relates the verdict to the line as it came: the GRANTEDs that were
accepted for the job are those for its destination tokens, one by one, exactly if the list is
the one the line asks for.  It is about runs that leave no index entry with the address of a
freed job, which could be the block of a later one.
-/

namespace ResourceAgent.Ports.WholeGrant

open ResourceAgent.Ports.HashTable
open ResourceAgent.Ports.Records
open ResourceAgent.Ports.Wire
open ResourceAgent.Ports.Client
open ResourceAgent.Ports.ClientRun
open ResourceAgent.Ports.Outcomes
open ResourceAgent.Ports.ClientShape
open ResourceAgent.Ports.JobEnds
open ResourceAgent.Ports.JobFate
open ResourceAgent.Ports.Replacement (Orderly)
open ResourceAgent.Verified.CText
open ResourceAgent.Verified.Runs

/-! ## What a line asks for -/

/-- The destination tokens of a JOB_REQUEST: all tokens of the line, without the command and
the job id. -/
def destinationTokens (line : Text) : List Text := (allTokens isBlank (cString line)).drop 2

/-- `@ip:res:amount`, of any length. -/
def splitToken (token : Text) : Option (Text × Text × Text) :=
  let p := if token.head? = some '@' then token.tail else token
  (strtok (· == ':') p).bind fun ip =>
    (strtok (· == ':') ip.2).bind fun res =>
      (strtok (· == ' ') res.2).map fun amt => (ip.1, res.1, amt.1)

/-- The request a destination token stands for, if it is well formed: it has three pieces, and
the first is an address. -/
def requestOf (nodes : Table nodeCallbacks) (token : Text) : Option PendingResource :=
  (splitToken token).bind fun dest =>
    (inetPton dest.1).map fun _ =>
      { type := dest.2.1
        amount := atoi dest.2.2
        destIp := dest.1
        destPort := ((tablahashFind nodes ⟨inetAddr dest.1, 0, 0, 0, 0, 0⟩).map
          ReceivedNode.port).getD 4200
        providerFd := -1 }

/-- The destination tokens `erlang_to_C` reads. -/
def readTokens (line : Text) : List Text := (getToken 32 (copyLine line)).drop 2

/-- The list made from the line is the one it asks for. -/
def TakesAll (nodes : Table nodeCallbacks) (line : Text) : Prop :=
  (parseDestinations nodes (readTokens line)).map some =
    (destinationTokens line).map (requestOf nodes)

/-- Nothing of the line is cut off or skipped: only blanks stand behind the first 1023 bytes,
there are at most 32 tokens, and every destination splits into pieces that fit their fields,
the first of them an address. -/
structure TakenWhole (line : Text) : Prop where
  fits : ∀ c ∈ (cString line).drop 1023, isBlank c = true
  few : (allTokens isBlank (cString line)).length ≤ 32
  fields : ∀ token ∈ destinationTokens line, token.length ≤ 255 ∧ ∃ ip type amount,
    splitToken token = some (ip, type, amount) ∧ (inetPton ip).isSome ∧ ip.length ≤ 15 ∧
      type.length ≤ 7

section

variable {line : Text}

theorem readTokens_eq (h : TakenWhole line) : readTokens line = destinationTokens line := by
  have hCut : cString line = copyLine line ++ (cString line).drop 1023 :=
    (List.take_append_drop 1023 (cString line)).symm
  have hSame : tokens isBlank 32 (copyLine line) = tokens isBlank 32 (cString line) := by
    conv_rhs => rw [hCut]
    exact (tokens_append_delims 32 (copyLine line) _ h.fits).symm
  rw [readTokens, destinationTokens, getToken, hSame, tokens_eq_take_all,
    List.take_of_length_le h.few]

/-- The pieces of a token are made of its characters. -/
theorem mem_of_splitToken {token ip type amount : Text}
    (h : splitToken token = some (ip, type, amount)) {c : Char} (hc : c ∈ ip ∨ c ∈ type) :
    c ∈ token := by
  obtain ⟨⟨w, rest⟩, hIp, h⟩ := Option.bind_eq_some_iff.mp h
  obtain ⟨⟨v, rest'⟩, hType, h⟩ := Option.bind_eq_some_iff.mp h
  obtain ⟨⟨a, rest''⟩, -, hPair⟩ := Option.map_eq_some_iff.mp h
  cases hPair
  have hIn : c ∈ (if token.head? = some '@' then token.tail else token) := by
    rcases hc with hc | hc
    · exact mem_of_mem_strtok hIp (.inl hc)
    · exact mem_of_mem_strtok hIp (.inr (mem_of_mem_strtok hType (.inl hc)))
  split at hIn
  · exact List.mem_of_mem_tail hIn
  · exact hIn

theorem parseDestination_eq (nodes : Table nodeCallbacks) {token ip type amount : Text}
    (hNul : '\x00' ∉ token) (hLen : token.length ≤ 255)
    (hSplit : splitToken token = some (ip, type, amount)) (hAddr : (inetPton ip).isSome)
    (hIp : ip.length ≤ 15) (hType : type.length ≤ 7) :
    (parseDestination nodes token).isSome ∧
      parseDestination nodes token = requestOf nodes token := by
  obtain ⟨addr, hAddr⟩ := Option.isSome_iff_exists.mp hAddr
  have hCopy : splitDestination token = splitToken token := by
    rw [splitDestination, strncpy_eq_self hLen hNul]
    rfl
  have hIpCopy : strncpy 15 ip = ip :=
    strncpy_eq_self hIp fun h => hNul (mem_of_splitToken hSplit (.inl h))
  have hTypeCopy : strncpy 7 type = type :=
    strncpy_eq_self hType fun h => hNul (mem_of_splitToken hSplit (.inr h))
  rw [parseDestination, requestOf, hCopy, hSplit, Option.map_some, Option.bind_some, hAddr,
    Option.map_some, hIpCopy, hTypeCopy]
  exact ⟨rfl, rfl⟩

theorem nul_not_mem_destinationTokens {token : Text} (h : token ∈ destinationTokens line) :
    '\x00' ∉ token := by
  intro hNul
  have hMem := mem_of_mem_tokens isBlank _ _ token (List.mem_of_mem_drop h) _ hNul
  have hNot := List.mem_takeWhile_imp hMem
  simp at hNot

theorem TakenWhole.takesAll (h : TakenWhole line) (nodes : Table nodeCallbacks) :
    TakesAll nodes line := by
  rw [TakesAll, readTokens_eq h, parseDestinations]
  have hEach : ∀ token ∈ destinationTokens line, ∃ req,
      parseDestination nodes token = some req ∧ requestOf nodes token = some req := by
    intro token hToken
    obtain ⟨hLen, ip, type, amount, hSplit, hAddr, hIp, hType⟩ := h.fields token hToken
    obtain ⟨hSome, hEq⟩ := parseDestination_eq nodes (nul_not_mem_destinationTokens hToken) hLen
      hSplit hAddr hIp hType
    obtain ⟨req, hReq⟩ := Option.isSome_iff_exists.mp hSome
    exact ⟨req, hReq, hEq ▸ hReq⟩
  generalize destinationTokens line = ts at hEach
  induction ts with
  | nil => rfl
  | cons token ts ih =>
      obtain ⟨req, hParse, hRequest⟩ := hEach token List.mem_cons_self
      rw [List.filterMap_cons_some hParse, List.map_cons, List.map_cons, hRequest,
        ih fun t ht => hEach t (List.mem_cons_of_mem _ ht)]

theorem parseErlang_destinations {jobId : Text} {ds : List Text}
    (h : parseErlang line = .jobRequest jobId ds) : ds = readTokens line := by
  rw [readTokens]
  unfold parseErlang at h
  split at h
  · cases h
  · rename_i command args hTokens
    rw [hTokens]
    split at h
    · split at h
      · cases h
      · cases h
        rfl
    · split at h
      · split at h <;> cases h
      · split at h
        · split at h <;> cases h
        · split at h <;> cases h

end

/-! ## What a run has done for a job -/

/-- What the handlers of a run did outside. -/
def effects : ClientState → List ClientEvent → List Effect
  | _, [] => []
  | s, e :: es => (clientStep s e).2 ++ effects (next s e) es

/-- A GRANTED accepted for the job at an address: its connection and the request that was
first in the list. -/
def grantOf (s : ClientState) (addr : Nat) : ClientEvent → List (Int × PendingResource)
  | .line fd instruction now dial =>
      match accepted s (.line fd instruction now dial) with
      | none => []
      | some job =>
          if job.addr = addr then job.nextReq.head?.toList.map fun req => (fd, req) else []
  | _ => []

def grants : ClientState → List ClientEvent → Nat → List (Int × PendingResource)
  | _, [], _ => []
  | s, e :: es, addr => grantOf s addr e ++ grants (next s e) es addr

theorem effects_snoc (s : ClientState) (es : List ClientEvent) (e : ClientEvent) :
    effects s (es ++ [e]) = effects s es ++ (clientStep (run next s es) e).2 := by
  induction es generalizing s with
  | nil =>
      rw [List.nil_append, effects, effects, effects, List.append_nil, List.nil_append]
      rfl
  | cons e' es ih =>
      rw [List.cons_append, effects, ih, effects, List.append_assoc]
      rfl

theorem grants_snoc (s : ClientState) (es : List ClientEvent) (e : ClientEvent) (addr : Nat) :
    grants s (es ++ [e]) addr = grants s es addr ++ grantOf (run next s es) addr e := by
  induction es generalizing s with
  | nil =>
      rw [List.nil_append, grants, grants, grants, List.append_nil, List.nil_append]
      rfl
  | cons e' es ih =>
      rw [List.cons_append, grants, ih, grants, List.append_assoc]
      rfl

section

variable {s : ClientState} {addr : Nat} {e : ClientEvent}

theorem grantOf_other (h : ∀ old, accepted s e = some old → old.addr ≠ addr) :
    grantOf s addr e = [] := by
  cases e with
  | line fd instruction now dial =>
      simp only [grantOf]
      cases hAccepted : accepted s (.line fd instruction now dial) with
      | none => rfl
      | some job => exact if_neg (h job hAccepted)
  | _ => rfl

theorem grantOf_accepted {fd : Int} {instruction : Text} {now : Int} {dial : Dial} {job : LocalJob}
    (h : accepted s (.line fd instruction now dial) = some job) :
    grantOf s job.addr (.line fd instruction now dial) =
      job.nextReq.head?.toList.map fun req => (fd, req) := by
  simp only [grantOf, h, if_true]

theorem brk_le_step (h : Anchored s) (e : ClientEvent) : s.brk ≤ (next s e).brk := by
  cases clientStep_shape h.placed e with
  | shrinks hShrinks _ _ _ => exact hShrinks.brk.ge
  | requested job dial _ _ _ _ _ hChanged _ =>
      have hBrk : (next s e).brk = s.brk + 1 := hChanged.brk
      omega
  | advanced fd instruction now dial old _ _ _ _ hChanged _ => exact hChanged.brk.ge

/-- Nothing was granted at an address before it was allocated. -/
theorem grants_unallocated (es : List ClientEvent) {addr : Nat}
    (h : (run next ClientState.init es).brk ≤ addr) : grants ClientState.init es addr = [] := by
  induction es using List.reverseRecOn with
  | nil => rfl
  | append_singleton es e ih =>
      rw [run_snoc] at h
      have hBrk := brk_le_step (anchored_run es) e
      rw [grants_snoc, ih (hBrk.trans h), List.nil_append]
      apply grantOf_other
      intro old hAccepted hSame
      have hOld := accepted_mem hAccepted
      have := (anchored_run es).placed.allocated old hOld
      omega

/-! ## Connections -/

/-- The connection of the entry was opened for the first request of the job. -/
def Dialed (entry : FdJobEntry) (x : LocalJob) (out : List Effect) : Prop :=
  ∃ req rest, x.nextReq = req :: rest ∧ .connect entry.fd x.jobId req ∈ out

theorem asked_dialed {dial : Dial} {job : LocalJob} {entry : FdJobEntry}
    (h : entry ∈ (asked dial job).added) :
    entry.job = job.addr ∧ Dialed entry (asked dial job).job (asked dial job).out := by
  refine ⟨(asked_added h).2.1, ?_⟩
  cases hNext : job.nextReq with
  | nil => exact absurd hNext (asked_added h).2.2.1
  | cons req rest =>
      refine ⟨req, rest, by rw [asked_nextReq, hNext], ?_⟩
      rw [asked_jobId]
      cases dial with
      | connected fd =>
          simp only [asked, hNext, List.mem_singleton] at h ⊢
          rw [h]
          exact List.mem_cons_self
      | _ => simp [asked, hNext] at h

/-- A job changes and asks: its old entries go, and the new one has just been dialed. -/
theorem dialed_of_changed {s' : ClientState} {new : LocalJob} {dropped : List Int}
    {added : List FdJobEntry} {out : List Effect}
    (hChanged : Changed s s' addr (some new) dropped added)
    (hDropped : ∀ entry ∈ s.entries, entry.job = addr → entry.fd ∈ dropped)
    (hAddr : new.addr = addr) (hAdded : ∀ entry ∈ added, entry.job = addr ∧ Dialed entry new out)
    {entry : FdJobEntry} (hEntry : entry ∈ s'.entries) {x : LocalJob} (hx : x ∈ s'.jobs)
    (hLeads : x.addr = entry.job) : (entry ∈ s.entries ∧ x ∈ s.jobs) ∨ Dialed entry x out := by
  rcases (hChanged.entries entry).mp hEntry with hNew | ⟨hOld, hKept⟩
  · obtain ⟨hJob, hDialed⟩ := hAdded entry hNew
    rcases (hChanged.jobs x).mp hx with hSame | ⟨-, hNe⟩
    · cases hSame
      exact .inr hDialed
    · exact absurd (hLeads.trans hJob) hNe
  · rcases (hChanged.jobs x).mp hx with hSame | ⟨hOldJob, -⟩
    · cases hSame
      exact absurd (hDropped entry hOld (hLeads.symm.trans hAddr)) hKept
    · exact .inl ⟨hOld, hOldJob⟩

/-- An entry of a job is as it was, like the job, or it was dialed in this step. -/
theorem clientStep_dialed (h : Anchored s) (e : ClientEvent) {entry : FdJobEntry}
    (hEntry : entry ∈ (clientStep s e).1.entries) {x : LocalJob}
    (hx : x ∈ (clientStep s e).1.jobs) (hLeads : x.addr = entry.job) :
    (entry ∈ s.entries ∧ x ∈ s.jobs) ∨ Dialed entry x (clientStep s e).2 := by
  cases clientStep_shape h.placed e with
  | shrinks hShrinks _ _ _ => exact .inl ⟨hShrinks.entries entry hEntry, hShrinks.jobs x hx⟩
  | requested job dial _ _ hAddr _ _ hChanged hOut =>
      -- no entry leads to a new address
      have hNone : ∀ entry ∈ s.entries, entry.job ≠ job.addr := by
        intro entry hOld hSame
        have := h.allocated entry hOld
        omega
      rw [hOut]
      rcases dialed_of_changed hChanged (fun entry hOld hSame => absurd hSame (hNone entry hOld))
        (asked_addr dial job) (fun entry hNew => asked_dialed hNew) hEntry hx hLeads with
        ⟨hOld, hOldJob⟩ | hDialed
      · rcases ClientState.mem_jobs_insertJob.mp hOldJob with rfl | ⟨hOldJob, -⟩
        · exact absurd hLeads.symm (hNone entry hOld)
        · exact .inl ⟨hOld, hOldJob⟩
      · exact .inr hDialed
  | advanced fd instruction now dial old _ _ _ hOwner hChanged hOut =>
      have hAddr := LocalJob.advance_addr old fd now
      refine dialed_of_changed hChanged ?_ ((asked_addr dial _).trans hAddr) ?_ hEntry hx hLeads
      · intro entry hOld hSame
        rw [h.entry_fd hOwner hOld hSame]
        exact List.mem_cons_self
      · intro entry hNew
        obtain ⟨hJob, req, rest, hNext, hMem⟩ := asked_dialed hNew
        rw [hOut]
        exact ⟨hJob.trans hAddr, req, rest, hNext, List.mem_cons_of_mem _ hMem⟩

theorem Dialed.mono {entry : FdJobEntry} {x : LocalJob} {out out' : List Effect}
    (h : Dialed entry x out) (hSub : ∀ effect ∈ out, effect ∈ out') : Dialed entry x out' := by
  obtain ⟨req, rest, hNext, hMem⟩ := h
  exact ⟨req, rest, hNext, hSub _ hMem⟩

/-- **Every connection of a job was opened for the request it waits for.** -/
theorem dialed_run (es : List ClientEvent) : ∀ {entry : FdJobEntry} {x : LocalJob},
    entry ∈ (run next ClientState.init es).entries → x ∈ (run next ClientState.init es).jobs →
      x.addr = entry.job → Dialed entry x (effects ClientState.init es) := by
  induction es using List.reverseRecOn with
  | nil =>
      intro entry x hEntry
      simp [ClientState.entries, ClientState.init] at hEntry
  | append_singleton es e ih =>
      intro entry x hEntry hx hLeads
      rw [run_snoc] at hEntry hx
      rw [effects_snoc]
      rcases clientStep_dialed (anchored_run es) e hEntry hx hLeads with ⟨hOld, hOldJob⟩ | hDialed
      · exact (ih hOld hOldJob hLeads).mono fun _ hMem => List.mem_append_left _ hMem
      · exact hDialed.mono fun _ hMem => List.mem_append_right _ hMem

/-! ## The list of a job -/

/-- The job `jobId` at an address after a run: its list is `reqs`, and the part of it that is
granted was granted on connections opened for these requests, in order. -/
structure Backed (es : List ClientEvent) (jobId : Int) (reqs : List PendingResource)
    (x : LocalJob) : Prop where
  id : x.jobId = jobId
  destinations : destinations x = reqs
  clean : ∀ req ∈ x.nextReq, destination req = req
  granted : (grants ClientState.init es x.addr).map Prod.snd =
    x.grantedReqs.reverse.map destination
  connects : ∀ grant ∈ grants ClientState.init es x.addr,
    .connect grant.1 jobId grant.2 ∈ effects ClientState.init es

theorem Backed.kept {es : List ClientEvent} {jobId : Int} {reqs : List PendingResource}
    {x : LocalJob} (h : Backed es jobId reqs x) {e : ClientEvent}
    (hOther : ∀ old, accepted (run next ClientState.init es) e = some old → x.addr ≠ old.addr) :
    Backed (es ++ [e]) jobId reqs x := by
  have hNone : grantOf (run next ClientState.init es) x.addr e = [] :=
    grantOf_other fun old hOld => (hOther old hOld).symm
  have hGrants : grants ClientState.init (es ++ [e]) x.addr =
      grants ClientState.init es x.addr := by
    rw [grants_snoc, hNone, List.append_nil]
  refine ⟨h.id, h.destinations, h.clean, by rw [hGrants]; exact h.granted, fun grant hGrant => ?_⟩
  rw [hGrants] at hGrant
  rw [effects_snoc]
  exact List.mem_append_left _ (h.connects grant hGrant)

theorem Backed.advanced {es : List ClientEvent} {jobId : Int} {reqs : List PendingResource}
    {old : LocalJob} (h : Backed es jobId reqs old) {fd : Int} {instruction : Text} {now : Int}
    {dial : Dial}
    (hAccepted : accepted (run next ClientState.init es) (.line fd instruction now dial) = some old)
    (hOwner : (run next ClientState.init es).owner fd = some old) (socket : Int) :
    Backed (es ++ [.line fd instruction now dial]) jobId reqs
      { LocalJob.advance old fd now with originSocket := socket } := by
  obtain ⟨hEntry, hJob, -⟩ := (anchored_run es).owner hOwner
  obtain ⟨req, rest, hNext, hConnect⟩ := dialed_run es hEntry hJob rfl
  have hReq : destination req = req := h.clean req (by rw [hNext]; exact List.mem_cons_self)
  have hGrants : grants ClientState.init (es ++ [.line fd instruction now dial]) old.addr =
      grants ClientState.init es old.addr ++ [(fd, req)] := by
    rw [grants_snoc, grantOf_accepted hAccepted, hNext]
    rfl
  have hAdvance : LocalJob.advance old fd now =
      { old with
        nextReq := rest
        grantedReqs := { req with providerFd := fd } :: old.grantedReqs
        timer := now } := by
    rw [LocalJob.advance, hNext]
  rw [hAdvance]
  constructor
  · exact h.id
  · have hSame := destinations_advance old fd now
    rw [hAdvance, h.destinations] at hSame
    exact hSame
  · exact fun r hr => h.clean r (by rw [hNext]; exact List.mem_cons_of_mem _ hr)
  · show (grants ClientState.init (es ++ [.line fd instruction now dial]) old.addr).map Prod.snd =
      (({ req with providerFd := fd } :: old.grantedReqs).reverse).map destination
    rw [hGrants, List.map_append, h.granted, List.reverse_cons, List.map_append]
    refine congrArg _ ?_
    show [req] = [destination req]
    rw [hReq]
  · intro grant hGrant
    have hMem : grant ∈ grants ClientState.init es old.addr ++ [(fd, req)] := by
      rw [← hGrants]
      exact hGrant
    rw [effects_snoc]
    rcases List.mem_append.mp hMem with hMem | hMem
    · exact List.mem_append_left _ (h.connects grant hMem)
    · rw [List.mem_singleton.mp hMem, ← h.id]
      exact List.mem_append_left _ hConnect

theorem brk_le_run (es fs : List ClientEvent) :
    (run next ClientState.init es).brk ≤ (run next ClientState.init (es ++ fs)).brk := by
  induction fs using List.reverseRecOn with
  | nil => rw [List.append_nil]
  | append_singleton fs e ih =>
      rw [← List.append_assoc, run_snoc]
      exact ih.trans (brk_le_step (anchored_run _) e)

theorem brk_of_stored (h : Anchored s) {job : LocalJob} (hStored : stored s e = some job) :
    (next s e).brk = s.brk + 1 := by
  cases clientStep_shape h.placed e with
  | shrinks _ hNone _ _ =>
      rw [hNone] at hStored
      cases hStored
  | requested job' dial _ _ _ _ _ hChanged _ => exact hChanged.brk
  | advanced fd instruction now dial old _ hNone _ _ _ _ =>
      rw [hNone] at hStored
      cases hStored

/-- The job a request has just stored. -/
theorem backed_stored {past : List ClientEvent} {line : Text} {timer : Int}
    {nodes : Table nodeCallbacks} {dial : Dial} {job : LocalJob}
    (hStored : stored (run next ClientState.init past) (.erlang line timer nodes dial) = some job)
    (socket : Int) :
    Backed (past ++ [.erlang line timer nodes dial]) job.jobId
      (parseDestinations nodes (readTokens line)) { job with originSocket := socket } := by
  have hNone : grants ClientState.init (past ++ [.erlang line timer nodes dial]) job.addr = [] := by
    rw [grants_snoc, grants_unallocated past (stored_addr hStored).ge]
    rfl
  simp only [stored] at hStored
  split at hStored
  · rename_i jobId token tokens hParse
    rw [parseErlang_destinations hParse] at hStored
    cases hStored
    constructor
    · rfl
    · show (([] : List PendingResource).reverse ++ parseDestinations nodes (readTokens line)).map
        destination = _
      rw [List.reverse_nil, List.nil_append, destinations_parse]
    · intro req hReq
      have hMem : req ∈ parseDestinations nodes (readTokens line) := hReq
      obtain ⟨t, -, hToken⟩ := List.mem_filterMap.mp hMem
      obtain ⟨dest, -, rfl⟩ := Option.map_eq_some_iff.mp hToken
      rfl
    · exact congrArg (List.map Prod.snd) hNone
    · intro grant hGrant
      have hMem : grant ∈ ([] : List (Int × PendingResource)) := hNone ▸ hGrant
      cases hMem
  · cases hStored

/-- **The job of a request, in every run that follows.** -/
theorem backed_run {past : List ClientEvent} {line : Text} {timer : Int}
    {nodes : Table nodeCallbacks} {dial : Dial} {job : LocalJob}
    (hStored : stored (run next ClientState.init past) (.erlang line timer nodes dial) = some job)
    (later : List ClientEvent) : ∀ {x : LocalJob},
      x ∈ (run next ClientState.init (past ++ .erlang line timer nodes dial :: later)).jobs →
      x.addr = job.addr →
        Backed (past ++ .erlang line timer nodes dial :: later) job.jobId
          (parseDestinations nodes (readTokens line)) x := by
  have hAddr := stored_addr hStored
  have hBrk := brk_of_stored (anchored_run past) hStored
  induction later using List.reverseRecOn with
  | nil =>
      intro x hx hSame
      rw [run_snoc] at hx
      cases clientStep_fate (anchored_run past) _ hx with
      | kept hOld _ =>
          have := (anchored_run past).placed.allocated x hOld
          omega
      | stored job' socket hStored' hEq =>
          rw [hStored] at hStored'
          cases hStored'
          rw [hEq]
          exact backed_stored hStored socket
      | advanced fd instruction now dial' old socket hEvent _ _ _ => cases hEvent
  | append_singleton later e ih =>
      intro x hx hSame
      have hSplit : past ++ .erlang line timer nodes dial :: (later ++ [e]) =
          (past ++ .erlang line timer nodes dial :: later) ++ [e] := by simp
      rw [hSplit, run_snoc] at hx
      rw [hSplit]
      cases clientStep_fate (anchored_run _) e hx with
      | kept hOld hOther => exact (ih hOld hSame).kept hOther
      | stored job' socket hStored' hEq =>
          -- a later job is at an address of its own
          have hNew := stored_addr hStored'
          have hAt : x.addr = job'.addr := by rw [hEq]
          have hLe := brk_le_run (past ++ [.erlang line timer nodes dial]) later
          rw [run_snoc, hBrk, List.append_assoc] at hLe
          have hLe' : (run next ClientState.init past).brk + 1 ≤ (run next ClientState.init
              (past ++ .erlang line timer nodes dial :: later)).brk := hLe
          omega
      | advanced fd instruction now dial' old socket hEvent hAccepted hOwner hEq =>
          subst hEvent
          have hOld : old.addr = job.addr := by
            rw [← hSame, hEq]
            exact (LocalJob.advance_addr old fd now).symm
          rw [hEq]
          exact (ih (owner_mem hOwner) hOld).advanced hAccepted hOwner socket

end

/-! ## The verdict -/

/-- A step tells the scheduler that the job at an address is granted. -/
def Reports (s : ClientState) (e : ClientEvent) (addr : Nat) : Prop :=
  ∃ text, .toErlang .granted text ∈ (clientStep s e).2 ∧
    ∃ x ∈ (clientStep s e).1.jobs, x.addr = addr ∧ x.jobId = atoi text

/-- Every destination token of the line is well formed, and a GRANTED for it has been accepted,
in the order of the tokens and each on a connection that was opened to its address. -/
def AllGranted (es : List ClientEvent) (nodes : Table nodeCallbacks) (line : Text)
    (job : LocalJob) : Prop :=
  (grants ClientState.init es job.addr).map (fun grant => some grant.2) =
      (destinationTokens line).map (requestOf nodes) ∧
    ∀ grant ∈ grants ClientState.init es job.addr,
      .connect grant.1 job.jobId grant.2 ∈ effects ClientState.init es

/-- A cpu from one node and memory from another. -/
def twoDestinations : Text := "JOB_REQUEST 1001 @10.0.0.1:cpu:1 @10.0.0.2:mem:2\n".toList

def twoDestinationsJob : LocalJob :=
  ⟨0, 1001, -1, [⟨"cpu".toList, 1, "10.0.0.1".toList, 4200, -1⟩,
    ⟨"mem".toList, 2, "10.0.0.2".toList, 4200, -1⟩], [], 0⟩

/-- The request, and the first GRANTED. -/
def cpuGranted : List ClientEvent :=
  [.erlang twoDestinations 0 (tablahashCreate _) (.connected 5),
    .line 5 "GRANTED 1001\n".toList 1 (.connected 6)]

/-- The only destination has neither type nor amount. -/
def malformed : Text := "JOB_REQUEST 1001 @10.0.0.1\n".toList

/-- The only destination has no address. -/
def addressless : Text := "JOB_REQUEST 1001 @nonsense:cpu:1\n".toList

def addresslessJob : LocalJob :=
  ⟨0, 1001, -1, [⟨"cpu".toList, 1, "nonsense".toList, 4200, -1⟩], [], 0⟩

end ResourceAgent.Ports.WholeGrant
