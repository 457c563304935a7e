import ResourceAgent.Ports.Records

/-!
# Lines between agents, and what a handler does to the outside

`get_token` and the token dispatch at the top of `client_to_myserver` turn a
line from a peer into one of a few messages; `snprintf` formats produce the
lines an agent sends.  The two directions meet in `parseRemote_reserveLine`,
`parseRemote_grantedLine` and `parseRemote_releaseLine`.

A handler is modelled as a function from states to states that also returns
the list of its `Effect`s, in order: the system calls through which it acts on
its connections.
-/

namespace ResourceAgent.Ports.Wire

open ResourceAgent.Ports.Records
open ResourceAgent.Verified.CText

/-- `BUFFER_LEN`. -/
def bufferLen : Nat := 1024

/-- The delimiters `" \n\r"` of `get_token`. -/
def isBlank (c : Char) : Bool := c == ' ' || c == '\n' || c == '\r'

/-- `get_token(instruction, tokens, max_tokens)`. -/
def getToken (maxTokens : Nat) (instruction : Text) : List Text :=
  tokens isBlank maxTokens instruction

/-- The private copy both line handlers tokenize. -/
def copyLine (instruction : Text) : Text := strncpy (bufferLen - 1) instruction

/-! ## Lines from a peer -/

/-- What `client_to_myserver` makes of a line. -/
inductive RemoteMessage where
  /-- `RESERVE <job> <resource> <amount>` -/
  | reserve (jobId : Int) (resource : Text) (amount : Int)
  | release
  /-- `GRANTED <job>` -/
  | granted (jobId : Int)
  /-- `DENIED` or an unknown command, with at least two tokens -/
  | reject
  /-- an empty or malformed line: logged at most -/
  | ignored
  deriving DecidableEq, Repr

/-- The token dispatch of `client_to_myserver`. -/
def parseRemote (instruction : Text) : RemoteMessage :=
  match getToken 10 (copyLine instruction) with
  | [] => .ignored
  | command :: args =>
      if command = "RESERVE".toList then
        match args with
        | jobId :: resource :: amount :: _ => .reserve (atoi jobId) resource (atoi amount)
        | _ => .ignored
      else if command = "RELEASE".toList then .release
      else if command = "GRANTED".toList then
        match args with
        | jobId :: _ => .granted (atoi jobId)
        | [] => .ignored
      else
        match args with
        | _ :: _ => .reject
        | [] => .ignored

/-- `"RESERVE %d %s %d\n"`, written by `send_request`. -/
def reserveLine (jobId : Int) (type : Text) (amount : Int) : Text :=
  unwords ["RESERVE".toList, itoa jobId, type, itoa amount]

/-- `"GRANTED %d\n"`, written by `drain_queue`. -/
def grantedLine (jobId : Int) : Text :=
  unwords ["GRANTED".toList, itoa jobId]

/-- `"RELEASE %d %s %d\n"`, written by `release_resources`. -/
def releaseLine (jobId : Int) (type : Text) (amount : Int) : Text :=
  unwords ["RELEASE".toList, itoa jobId, type, itoa amount]

/-- A type name as it sits in the `char type[8]` field of a destination: a
token of at most seven characters. -/
structure IsTypeName (type : Text) : Prop where
  word : IsWord isBlank type
  nul : '\x00' ∉ type
  length : type.length ≤ 7

theorem Resource.name_isTypeName (r : Resource) : IsTypeName r.name := by
  cases r <;> exact ⟨isWord_of_all (by decide) (by decide), by decide, by decide⟩

theorem digit_clean {c : Char} (h : c = '-' ∨ c.isDigit = true) :
    isBlank c = false ∧ c ≠ '\x00' := by
  rcases h with rfl | h
  · decide
  · rw [Char.isDigit_iff_toNat] at h
    have hLow : 48 ≤ c.toNat := h.1
    refine ⟨?_, by rintro rfl; exact absurd hLow (by decide)⟩
    have hBlank : c ≠ ' ' := by rintro rfl; exact absurd hLow (by decide)
    have hNewline : c ≠ '\n' := by rintro rfl; exact absurd hLow (by decide)
    have hReturn : c ≠ '\r' := by rintro rfl; exact absurd hLow (by decide)
    simp [isBlank, hBlank, hNewline, hReturn]

theorem itoa_isWord (n : Int) : IsWord isBlank (itoa n) :=
  ⟨itoa_ne_nil n, fun _ hc => (digit_clean (mem_itoa hc)).1⟩

theorem nul_not_mem_itoa (n : Int) : '\x00' ∉ itoa n :=
  fun hc => (digit_clean (mem_itoa hc)).2 rfl

/-- A short line of words survives the copy and splits into its words. -/
theorem getToken_unwords {ws : List Text} {n : Nat}
    (hWords : ∀ w ∈ ws, IsWord isBlank w ∧ '\x00' ∉ w)
    (hLen : (unwords ws).length ≤ 1023) :
    getToken n (copyLine (unwords ws)) = ws.take n := by
  have hNul : '\x00' ∉ unwords ws := by
    intro h
    rcases mem_unwords h with h | h | ⟨w, hw, hc⟩
    · exact absurd h (by decide)
    · exact absurd h (by decide)
    · exact (hWords w hw).2 hc
  have hCopy : copyLine (unwords ws) = unwords ws := strncpy_eq_self hLen hNul
  rw [hCopy]
  exact tokens_unwords (by decide) (by decide) ws n fun w hw => (hWords w hw).1

/-- The commands of the peer protocol. -/
def IsCommand (w : Text) : Prop :=
  w = "RESERVE".toList ∨ w = "GRANTED".toList ∨ w = "RELEASE".toList

private theorem IsCommand.clean {w : Text} (h : IsCommand w) :
    IsWord isBlank w ∧ '\x00' ∉ w := by
  rcases h with rfl | rfl | rfl <;> exact ⟨isWord_of_all (by decide) (by decide), by decide⟩

private theorem IsCommand.length {w : Text} (h : IsCommand w) : w.length = 7 := by
  rcases h with rfl | rfl | rfl <;> rfl

/-- The tokens of a line that names a job, a type and an amount. -/
private theorem getToken_amountLine {command type : Text} {jobId amount : Int}
    (hCommand : IsCommand command) (hJob : IsInt jobId) (hAmount : IsInt amount)
    (hType : IsTypeName type) :
    getToken 10 (copyLine (unwords [command, itoa jobId, type, itoa amount])) =
      [command, itoa jobId, type, itoa amount] := by
  have hCommandLen := hCommand.length
  have hJobLen := length_itoa_le hJob
  have hAmountLen := length_itoa_le hAmount
  have hTypeLen := hType.length
  refine getToken_unwords (n := 10) ?_ ?_
  · intro w hw
    simp only [List.mem_cons, List.not_mem_nil, or_false] at hw
    rcases hw with rfl | rfl | rfl | rfl
    · exact hCommand.clean
    · exact ⟨itoa_isWord jobId, nul_not_mem_itoa jobId⟩
    · exact ⟨hType.word, hType.nul⟩
    · exact ⟨itoa_isWord amount, nul_not_mem_itoa amount⟩
  · simp only [unwords, List.length_append, List.length_cons, List.length_nil]
    omega

/-- A RESERVE line is read back as it was written. -/
theorem parseRemote_reserveLine {jobId amount : Int} {type : Text}
    (hJob : IsInt jobId) (hAmount : IsInt amount) (hType : IsTypeName type) :
    parseRemote (reserveLine jobId type amount) = .reserve jobId type amount := by
  have hTokens := getToken_amountLine (.inl rfl) hJob hAmount hType
  rw [parseRemote, reserveLine, hTokens]
  simp only [if_true, atoi_itoa hJob, atoi_itoa hAmount]

theorem parseRemote_releaseLine {jobId amount : Int} {type : Text}
    (hJob : IsInt jobId) (hAmount : IsInt amount) (hType : IsTypeName type) :
    parseRemote (releaseLine jobId type amount) = .release := by
  have hTokens := getToken_amountLine (.inr (.inr rfl)) hJob hAmount hType
  rw [parseRemote, releaseLine, hTokens]
  have hOther : "RELEASE".toList ≠ "RESERVE".toList := by decide
  simp only [hOther, if_false, if_true]

theorem parseRemote_grantedLine {jobId : Int} (hJob : IsInt jobId) :
    parseRemote (grantedLine jobId) = .granted jobId := by
  have hCommand : IsCommand "GRANTED".toList := .inr (.inl rfl)
  have hJobLen := length_itoa_le hJob
  have hTokens : getToken 10 (copyLine (grantedLine jobId)) =
      ["GRANTED".toList, itoa jobId] := by
    refine getToken_unwords (n := 10) ?_ ?_
    · intro w hw
      simp only [List.mem_cons, List.not_mem_nil, or_false] at hw
      rcases hw with rfl | rfl
      · exact hCommand.clean
      · exact ⟨itoa_isWord jobId, nul_not_mem_itoa jobId⟩
    · have hCommandLen := hCommand.length
      simp only [unwords, List.length_append, List.length_cons, List.length_nil]
      omega
  have hReserve : "GRANTED".toList ≠ "RESERVE".toList := by decide
  have hRelease : "GRANTED".toList ≠ "RELEASE".toList := by decide
  rw [parseRemote, hTokens]
  simp only [hReserve, hRelease, if_false, if_true, atoi_itoa hJob]

/-! ## Effects -/

/-- The `instruction` argument of `C_to_erlang`. -/
inductive Instruction where
  | granted
  | rejected
  | waiting
  | timeout
  deriving DecidableEq, Repr

/-- What a handler does outside its own tables. -/
inductive Effect where
  /-- `send(fd, line)` -/
  | send (fd : Int) (line : Text)
  | close (fd : Int)
  /-- `connect()` succeeded on `fd` towards `req.destIp:req.destPort`, for
  this request of this job -/
  | connect (fd : Int) (jobId : Int) (req : PendingResource)
  /-- `epoll_ctl` ADD with `EPOLLOUT | EPOLLET | EPOLLONESHOT` -/
  | epollAdd (fd : Int)
  /-- `epoll_ctl` MOD to `EPOLLIN` -/
  | epollMod (fd : Int)
  | epollDel (fd : Int)
  /-- `C_to_erlang(instruction, job_id)`, when it sends -/
  | toErlang (instruction : Instruction) (jobId : Text)
  /-- the answer to GET_NODES -/
  | nodes (reply : Text)
  /-- `record_granted` has run for this request of this queue -/
  | recorded (r : Resource) (req : Request)
  deriving DecidableEq, Repr

end ResourceAgent.Ports.Wire
