import ResourceAgent.Ports.Client

/-!
# The scheduler's command lines

`job_request_format` of `scheduler_utils.erl` and the two other lines the
coordinator sends about a job, and what `erlang_to_C` makes of them: the command
the scheduler meant, and for a JOB_REQUEST at most one destination of each type,
in the order cpu, mem, gpu.
-/

namespace ResourceAgent.Ports.JobRequest

open ResourceAgent.Ports.HashTable
open ResourceAgent.Ports.Records
open ResourceAgent.Ports.Wire
open ResourceAgent.Ports.Client
open ResourceAgent.Verified.CText

/-- The text of an address, as `get_nodes_instance` prints it. -/
structure IsIp (ip : Text) : Prop where
  ne_nil : ip ≠ []
  length : ip.length ≤ 15
  chars : ∀ c ∈ ip, c = '.' ∨ c.isDigit = true

theorem isIp_of_all {ip : Text} (hNe : ip ≠ []) (hLen : ip.length ≤ 15)
    (hAll : (ip.all fun c => c == '.' || c.isDigit) = true) : IsIp ip :=
  ⟨hNe, hLen, by simpa using hAll⟩

/-- The address of the concrete requests. -/
theorem isIp_ten : IsIp "10.0.0.1".toList :=
  isIp_of_all (by decide) (by decide) (by decide)

/-- What `pick_resource` returns for one type: an address and an amount.  The
port of its tuple is not sent. -/
structure Pick where
  ip : Text
  quantity : Nat
  isIp : IsIp ip
  small : quantity < 2 ^ 31

/-- `make_resources_for_job`: one pick for each type. -/
abbrev Picks := Resource → Pick

/-- `resource_to_string`. -/
def resourceToString (type : Resource) (pick : Pick) : Text :=
  "@".toList ++ pick.ip ++ ":".toList ++ type.name ++ ":".toList ++ itoa pick.quantity

/-- `append_if_not_zero`. -/
def appendIfNotZero (base : Text) (type : Resource) (pick : Pick) : Text :=
  if pick.quantity = 0 then base else base ++ " ".toList ++ resourceToString type pick

/-- `job_request_format(JobId, [Cpu, Mem, Gpu])`. -/
def jobRequestFormat (jobId : Int) (picks : Picks) : Text :=
  let base := "JOB_REQUEST ".toList ++ itoa jobId
  let base1 := appendIfNotZero base .cpu (picks .cpu)
  let base2 := appendIfNotZero base1 .mem (picks .mem)
  let base3 := appendIfNotZero base2 .gpu (picks .gpu)
  base3 ++ "\n".toList

/-- `"JOB_STATUS " ++ integer_to_list(JobId) ++ "\n"`. -/
def statusLine (jobId : Int) : Text := "JOB_STATUS ".toList ++ itoa jobId ++ "\n".toList

/-- `"JOB_RELEASE " ++ integer_to_list(JobId) ++ "\n"`. -/
def finishedLine (jobId : Int) : Text := "JOB_RELEASE ".toList ++ itoa jobId ++ "\n".toList

/-- The types a job asks for, in order. -/
def wanted (picks : Picks) : List Resource :=
  [Resource.cpu, .mem, .gpu].filter fun type => (picks type).quantity ≠ 0

/-! ## The tokens -/

theorem jobRequestFormat_eq (jobId : Int) (picks : Picks) :
    jobRequestFormat jobId picks = unwords ("JOB_REQUEST".toList :: itoa jobId ::
      (wanted picks).map fun type => resourceToString type (picks type)) := by
  have hBlank : ∀ w : Text, "JOB_REQUEST ".toList ++ w = "JOB_REQUEST".toList ++ ' ' :: w :=
    fun _ => rfl
  simp only [jobRequestFormat, hBlank]
  by_cases hCpu : (picks .cpu).quantity = 0 <;> by_cases hMem : (picks .mem).quantity = 0 <;>
    by_cases hGpu : (picks .gpu).quantity = 0 <;>
    simp [appendIfNotZero, wanted, unwords, hCpu, hMem, hGpu]

private theorem ip_clean {c : Char} (h : c = '.' ∨ c.isDigit = true) :
    isBlank c = false ∧ c ≠ '\x00' ∧ c ≠ ':' := by
  rcases h with rfl | h
  · decide
  · obtain ⟨hBlank, hNul⟩ := digit_clean (.inr h)
    refine ⟨hBlank, hNul, ?_⟩
    rintro rfl
    exact absurd h (by decide)

private theorem mem_resourceToString {type : Resource} {pick : Pick} {c : Char}
    (h : c ∈ resourceToString type pick) : isBlank c = false ∧ c ≠ '\x00' := by
  simp only [resourceToString, List.mem_append] at h
  rcases h with ((((h | h) | h) | h) | h) | h
  · rw [show "@".toList = ['@'] from rfl, List.mem_singleton] at h
    subst h
    decide
  · exact ⟨(ip_clean (pick.isIp.chars c h)).1, (ip_clean (pick.isIp.chars c h)).2.1⟩
  · rw [show ":".toList = [':'] from rfl, List.mem_singleton] at h
    subst h
    decide
  · have hName := Resource.name_isTypeName type
    exact ⟨hName.word.clean c h, fun hNul => hName.nul (hNul ▸ h)⟩
  · rw [show ":".toList = [':'] from rfl, List.mem_singleton] at h
    subst h
    decide
  · exact digit_clean (mem_itoa h)

theorem Pick.quantity_isInt (pick : Pick) : IsInt pick.quantity := by
  have := pick.small
  constructor <;> omega

theorem length_resourceToString_le (type : Resource) (pick : Pick) :
    (resourceToString type pick).length ≤ 36 := by
  have hIp := pick.isIp.length
  have hName := (Resource.name_isTypeName type).length
  have hQuantity := length_itoa_le pick.quantity_isInt
  have hAt : "@".toList.length = 1 := rfl
  have hColon : ":".toList.length = 1 := rfl
  rw [resourceToString, List.length_append, List.length_append, List.length_append,
    List.length_append, List.length_append, hAt, hColon]
  clear hAt hColon
  omega

theorem resourceToString_isWord (type : Resource) (pick : Pick) :
    IsWord isBlank (resourceToString type pick) := by
  refine ⟨?_, fun c hc => (mem_resourceToString hc).1⟩
  rw [resourceToString]
  simp

theorem wanted_length_le (picks : Picks) : (wanted picks).length ≤ 3 :=
  List.length_filter_le _ _

/-- A JOB_REQUEST of the scheduler is read as the job id and the destinations
that were picked. -/
theorem parseErlang_jobRequestFormat {jobId : Int} (hId : IsInt jobId) (picks : Picks) :
    parseErlang (jobRequestFormat jobId picks) = .jobRequest (itoa jobId)
      ((wanted picks).map fun type => resourceToString type (picks type)) := by
  have hCommand : IsWord isBlank "JOB_REQUEST".toList ∧ '\x00' ∉ "JOB_REQUEST".toList :=
    ⟨isWord_of_all (by decide) (by decide), by decide⟩
  have hWanted := wanted_length_le picks
  have hTokens : getToken 32 (copyLine (jobRequestFormat jobId picks)) =
      "JOB_REQUEST".toList :: itoa jobId ::
        (wanted picks).map fun type => resourceToString type (picks type) := by
    rw [jobRequestFormat_eq, getToken_unwords (n := 32), List.take_of_length_le]
    · simp only [List.length_cons, List.length_map]
      omega
    · intro w hw
      rcases List.mem_cons.mp hw with rfl | hw
      · exact hCommand
      rcases List.mem_cons.mp hw with rfl | hw
      · exact ⟨itoa_isWord jobId, nul_not_mem_itoa jobId⟩
      obtain ⟨type, -, rfl⟩ := List.mem_map.mp hw
      exact ⟨resourceToString_isWord type _, fun hNul => (mem_resourceToString hNul).2 rfl⟩
    · have hLen := length_unwords_le ("JOB_REQUEST".toList :: itoa jobId ::
        (wanted picks).map fun type => resourceToString type (picks type))
      have hSum : (((wanted picks).map fun type => resourceToString type (picks type)).map
          List.length).sum ≤ (wanted picks).length * 36 := by
        induction wanted picks with
        | nil => simp
        | cons type types ih =>
            have hOne := length_resourceToString_le type (picks type)
            simp only [List.map_cons, List.sum_cons, List.length_cons]
            omega
      have hJob := length_itoa_le hId
      have hHead : "JOB_REQUEST".toList.length = 11 := rfl
      simp only [List.map_cons, List.sum_cons, List.length_cons, List.length_map, hHead] at hLen
      clear hHead hCommand
      omega
  rw [parseErlang, hTokens]
  simp only [if_true]

private theorem parse_pair (command : Text) {jobId : Int} (hId : IsInt jobId)
    (hWord : IsWord isBlank command ∧ '\x00' ∉ command) (hLen : command.length ≤ 20) :
    getToken 32 (copyLine (unwords [command, itoa jobId])) = [command, itoa jobId] := by
  refine getToken_unwords (n := 32) ?_ ?_
  · intro w hw
    simp only [List.mem_cons, List.not_mem_nil, or_false] at hw
    rcases hw with rfl | rfl
    · exact hWord
    · exact ⟨itoa_isWord jobId, nul_not_mem_itoa jobId⟩
  · have hJob := length_itoa_le hId
    simp only [unwords, List.length_append, List.length_cons, List.length_nil]
    omega

theorem parseErlang_statusLine {jobId : Int} (hId : IsInt jobId) :
    parseErlang (statusLine jobId) = .jobStatus (itoa jobId) := by
  have hTokens := parse_pair "JOB_STATUS".toList hId
    ⟨isWord_of_all (by decide) (by decide), by decide⟩ (by decide)
  have hLine : statusLine jobId = unwords ["JOB_STATUS".toList, itoa jobId] := rfl
  have hRequest : "JOB_STATUS".toList ≠ "JOB_REQUEST".toList := by decide
  have hRelease : "JOB_STATUS".toList ≠ "JOB_RELEASE".toList := by decide
  rw [parseErlang, hLine, hTokens]
  simp only [hRequest, hRelease, if_false, if_true]

theorem parseErlang_finishedLine {jobId : Int} (hId : IsInt jobId) :
    parseErlang (finishedLine jobId) = .jobRelease (itoa jobId) := by
  have hTokens := parse_pair "JOB_RELEASE".toList hId
    ⟨isWord_of_all (by decide) (by decide), by decide⟩ (by decide)
  have hLine : finishedLine jobId = unwords ["JOB_RELEASE".toList, itoa jobId] := rfl
  have hRequest : "JOB_RELEASE".toList ≠ "JOB_REQUEST".toList := by decide
  rw [parseErlang, hLine, hTokens]
  simp only [hRequest, if_false, if_true]

/-! ## The destinations -/

/-- The request a pick becomes. -/
def pendingOf (nodes : Table nodeCallbacks) (type : Resource) (pick : Pick) : PendingResource where
  type := type.name
  amount := pick.quantity
  destIp := pick.ip
  destPort := ((tablahashFind nodes ⟨inetAddr pick.ip, 0, 0, 0, 0, 0⟩).map
    ReceivedNode.port).getD 4200
  providerFd := -1

theorem splitDestination_resourceToString (type : Resource) (pick : Pick) :
    splitDestination (resourceToString type pick) =
      some (pick.ip, type.name, itoa pick.quantity) := by
  have hIp : IsWord (· == ':') pick.ip :=
    ⟨pick.isIp.ne_nil, fun c hc => by simpa using (ip_clean (pick.isIp.chars c hc)).2.2⟩
  have hName : IsWord (· == ':') type.name := by
    cases type <;> exact isWord_of_all (by decide) (by decide)
  have hAmount : IsWord (· == ' ') (itoa pick.quantity) := by
    refine ⟨itoa_ne_nil _, fun c hc => ?_⟩
    have hBlank := (digit_clean (mem_itoa hc)).1
    simp only [isBlank, Bool.or_eq_false_iff] at hBlank
    exact hBlank.1.1
  have hCopy : strncpy 255 (resourceToString type pick) =
      '@' :: (pick.ip ++ ':' :: (type.name ++ ':' :: itoa pick.quantity)) := by
    rw [strncpy_eq_self]
    · simp [resourceToString]
    · exact (length_resourceToString_le type pick).trans (by decide)
    · exact fun hNul => (mem_resourceToString hNul).2 rfl
  simp only [splitDestination, hCopy, List.head?_cons, if_true, List.tail_cons,
    strtok_word hIp (d := ':') rfl, strtok_word hName (d := ':') rfl, strtok_last hAmount,
    Option.bind_some, Option.map_some]

theorem parseDestinations_format (nodes : Table nodeCallbacks) (picks : Picks) :
    parseDestinations nodes ((wanted picks).map fun type => resourceToString type (picks type)) =
      (wanted picks).map fun type => pendingOf nodes type (picks type) := by
  have hOne : ∀ type, parseDestination nodes (resourceToString type (picks type)) =
      some (pendingOf nodes type (picks type)) := by
    intro type
    have hIp : strncpy 15 (picks type).ip = (picks type).ip := by
      refine strncpy_eq_self (picks type).isIp.length fun hNul => ?_
      exact (ip_clean ((picks type).isIp.chars _ hNul)).2.1 rfl
    have hName := Resource.name_isTypeName type
    rw [parseDestination, splitDestination_resourceToString, Option.map_some, hIp,
      strncpy_eq_self hName.length hName.nul, atoi_itoa (picks type).quantity_isInt]
    rfl
  rw [parseDestinations, List.filterMap_map, Function.comp_def]
  simp only [hOne]
  rw [List.filterMap_eq_map']

end ResourceAgent.Ports.JobRequest
