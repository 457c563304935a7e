import ResourceAgent.Ports.ClientMoves
import ResourceAgent.Ports.Discovery
import ResourceAgent.Ports.JobRequest

/-!
# The scheduler's choice, from the draw to the agent's job

`make_resources_for_job` and `pick_resource` of `scheduler_utils.erl` draw a node and
an amount for each type; `job_request_format` writes the draws that are not zero into
one line; `erlang_to_C` makes a job of it, or answers JOB_DENIED when nothing is left.

The outcome of `rand:uniform` is an argument: `Draw` holds every pair of numbers
the two calls of `pick_resource` can return, and nothing else.
-/

namespace ResourceAgent.Ports.Selection

open ResourceAgent.Ports.HashTable
open ResourceAgent.Ports.Records
open ResourceAgent.Ports.Wire
open ResourceAgent.Ports.Client
open ResourceAgent.Ports.Discovery
open ResourceAgent.Ports.JobRequest
open ResourceAgent.Verified.CText

/-! ## Draws -/

/-- `{Type, TypeStorage} = lists:keyfind(Type, 1, Resources)`. -/
def typeStorage (node : ParsedNode) : Resource → Int
  | .cpu => node.cpu
  | .mem => node.mem
  | .gpu => node.gpu

def IsDottedQuad (ip : Text) : Prop := ∃ a b c d, ip = dottedQuad a b c d

/-- A node the scheduler can choose from: its address is a dotted quad and no amount
is negative or reaches the largest `int`. -/
structure Candidate extends ParsedNode where
  quad : IsDottedQuad ip
  amounts : ∀ type, 0 ≤ typeStorage toParsedNode type ∧ typeStorage toParsedNode type ≤ 2 ^ 31 - 2

/-- What `rand:uniform(length(Nodes)) - 1` and `rand:uniform(TypeStorage + 1) - 1`
give. -/
structure Draw (nodes : List Candidate) (type : Resource) where
  index : Fin nodes.length
  amount : Fin ((typeStorage (nodes.get index).toParsedNode type).toNat + 1)

namespace Draw

variable {nodes : List Candidate} {type : Resource}

/-- The node drawn. -/
def node (draw : Draw nodes type) : Candidate := nodes.get draw.index

theorem amount_le (draw : Draw nodes type) :
    (draw.amount.val : Int) ≤ typeStorage draw.node.toParsedNode type := by
  have hLt := draw.amount.isLt
  have hPos := (draw.node.amounts type).1
  rw [node] at hPos ⊢
  omega

end Draw

theorem IsDottedQuad.isIp {ip : Text} (h : IsDottedQuad ip) : IsIp ip := by
  obtain ⟨a, b, c, d, rfl⟩ := h
  refine ⟨?_, length_dottedQuad_le a b c d, fun x hx => mem_dottedQuad hx⟩
  simp [dottedQuad]

/-- `pick_resource(Type, Nodes)`. -/
def pickResource (type : Resource) (nodes : List Candidate) (draw : Draw nodes type) : Pick where
  ip := draw.node.ip
  quantity := draw.amount
  isIp := draw.node.quad.isIp
  small := by
    have hLe := draw.amount_le
    have hBound := (draw.node.amounts type).2
    omega

/-- `make_resources_for_job(Data)`. -/
def makeResourcesForJob (nodes : List Candidate) (draws : ∀ type, Draw nodes type) : Picks :=
  fun type => pickResource type nodes (draws type)

/-! ## The port of a destination -/

/-- A recorded address is found from its dotted quad. -/
theorem destPort_recorded {table : Table nodeCallbacks} {type : Resource} {pick : Pick}
    {node : ReceivedNode} (hNode : node ∈ table.toList) (hInt : IsInt node.ip)
    (hIp : inetNtop node.ip = pick.ip) : (pendingOf table type pick).destPort = node.port := by
  have hAddr : inetAddr pick.ip = node.ip := by
    rw [← hIp]
    exact inetAddr_inetNtop hInt
  have hFind : tablahashFind table ⟨inetAddr pick.ip, 0, 0, 0, 0, 0⟩ = some node := by
    rw [find_eq_some_iff]
    refine ⟨hNode, ?_⟩
    rw [nodeCallbacks_same, hAddr]
    simp
  show ((tablahashFind table ⟨inetAddr pick.ip, 0, 0, 0, 0, 0⟩).map ReceivedNode.port).getD 4200 = _
  rw [hFind]
  rfl

/-! ## The job -/

/-- A job in the table is found, with another socket at most, after its next resource
has been asked for. -/
theorem findJob_askForNextResource (dial : Dial) {s : ClientState} {job : LocalJob}
    (hJob : job ∈ s.jobs) :
    ∃ fd, (askForNextResource dial s job).1.findJob job.jobId =
      some { job with originSocket := fd } := by
  have hKept : s.findJob job.jobId = some { job with originSocket := job.originSocket } :=
    ClientState.findJob_eq_some.mpr ⟨hJob, rfl⟩
  have hWritten : ∀ fd, { job with originSocket := fd } ∈
      (s.writeJob { job with originSocket := fd }).jobs := by
    intro fd
    simp only [ClientState.jobs, ClientState.writeJob, toList_update, List.mem_map]
    refine ⟨job, hJob, ?_⟩
    simp
  unfold askForNextResource
  split
  · exact ⟨_, hKept⟩
  · split
    · exact ⟨_, hKept⟩
    · exact ⟨_, hKept⟩
    · rename_i fd
      refine ⟨fd, ClientState.findJob_eq_some.mpr ⟨?_, rfl⟩⟩
      simp only [ClientState.jobs_removeEntry, ClientState.jobs_insertEntry]
      exact hWritten fd
    · rename_i fd
      refine ⟨fd, ClientState.findJob_eq_some.mpr ⟨?_, rfl⟩⟩
      simp only [ClientState.jobs_insertEntry]
      exact hWritten fd

/-- The types drawn with an amount, in order. -/
def drawn {nodes : List Candidate} (draws : ∀ type, Draw nodes type) : List Resource :=
  [Resource.cpu, .mem, .gpu].filter fun type => (draws type).amount.val ≠ 0

theorem wanted_makeResourcesForJob {nodes : List Candidate} (draws : ∀ type, Draw nodes type) :
    wanted (makeResourcesForJob nodes draws) = drawn draws := rfl

/-- The job of a JOB_REQUEST with destinations. -/
theorem created {nodes : List Candidate} (draws : ∀ type, Draw nodes type) {jobId : Int}
    (hId : IsInt jobId) (table : Table nodeCallbacks) (timer : Int) (dial : Dial)
    (s : ClientState) (hSome : drawn draws ≠ []) :
    ∃ fd, (clientStep s (.erlang (jobRequestFormat jobId (makeResourcesForJob nodes draws))
        timer table dial)).1.findJob jobId =
      some ⟨s.brk, jobId, fd, (drawn draws).map fun type =>
        pendingOf table type (pickResource type nodes (draws type)), [], timer⟩ := by
  have hParse := parseErlang_jobRequestFormat hId (makeResourcesForJob nodes draws)
  have hDest := parseDestinations_format table (makeResourcesForJob nodes draws)
  rw [wanted_makeResourcesForJob] at hParse hDest
  obtain ⟨type, types, hTypes⟩ := List.exists_cons_of_ne_nil hSome
  rw [clientStep, hParse]
  rw [hTypes, List.map_cons] at hDest ⊢
  simp only [erlangToC]
  rw [hDest, atoi_itoa hId]
  have hJob : makeJob s jobId
      ((type :: types).map fun type => pendingOf table type (makeResourcesForJob nodes draws type))
      timer ∈ (s.insertJob (makeJob s jobId ((type :: types).map fun type =>
        pendingOf table type (makeResourcesForJob nodes draws type)) timer)).jobs :=
    ClientState.mem_jobs_insertJob.mpr (.inl rfl)
  exact findJob_askForNextResource dial hJob

/-- What the agent's next requests have to be for these draws. -/
structure Carries {nodes : List Candidate} (draws : ∀ type, Draw nodes type)
    (table : Table nodeCallbacks) (nextReq : List PendingResource) : Prop where
  /-- the draws with an amount, in the order cpu, mem, gpu -/
  exact : nextReq.map (fun req => (req.type, req.destIp, req.amount)) =
    (drawn draws).map fun type =>
      (type.name, (draws type).node.ip, ((draws type).amount.val : Int))
  bounded : ∀ type ∈ drawn draws, 1 ≤ ((draws type).amount.val : Int) ∧
    ((draws type).amount.val : Int) ≤ typeStorage (draws type).node.toParsedNode type
  port : ∀ req ∈ nextReq, ∀ node ∈ table.toList, IsInt node.ip →
    inetNtop node.ip = req.destIp → req.destPort = node.port

theorem carries {nodes : List Candidate} (draws : ∀ type, Draw nodes type)
    (table : Table nodeCallbacks) :
    Carries draws table ((drawn draws).map fun type =>
      pendingOf table type (pickResource type nodes (draws type))) where
  exact := by
    rw [List.map_map]
    rfl
  bounded type hType := by
    have hNonzero := (List.mem_filter.mp hType).2
    simp only [ne_eq, decide_eq_true_eq] at hNonzero
    exact ⟨by omega, (draws type).amount_le⟩
  port req hReq node hNode hInt hIp := by
    obtain ⟨type, -, rfl⟩ := List.mem_map.mp hReq
    exact destPort_recorded hNode hInt hIp

theorem drawn_ne_nil {nodes : List Candidate} {draws : ∀ type, Draw nodes type} :
    drawn draws ≠ [] ↔ ∃ type, (draws type).amount.val ≠ 0 := by
  constructor
  · intro hNe
    obtain ⟨type, hType⟩ := List.exists_mem_of_ne_nil _ hNe
    exact ⟨type, by simpa using (List.mem_filter.mp hType).2⟩
  · rintro ⟨type, hType⟩
    have hMem : type ∈ drawn draws := by
      refine List.mem_filter.mpr ⟨?_, by simpa using hType⟩
      cases type <;> decide
    exact List.ne_nil_of_mem hMem

/-- **The choice survives the wire.**  For all candidates and all draws: if something
was drawn, the agent has a new job of that id that asks for exactly what was drawn;
if nothing was drawn, it answers JOB_DENIED and has no new job. -/
theorem choice_survives_the_wire {nodes : List Candidate} (draws : ∀ type, Draw nodes type)
    {jobId : Int} (hId : 1 ≤ jobId ∧ jobId ≤ 2 ^ 31 - 1) (table : Table nodeCallbacks)
    (timer : Int) (dial : Dial) (s : ClientState) :
    ((∃ type, (draws type).amount.val ≠ 0) →
      ∃ job, (clientStep s (.erlang (jobRequestFormat jobId (makeResourcesForJob nodes draws))
          timer table dial)).1.findJob jobId = some job ∧
        job.jobId = jobId ∧ job.addr = s.brk ∧ Carries draws table job.nextReq) ∧
    ((∀ type, (draws type).amount.val = 0) →
      clientStep s (.erlang (jobRequestFormat jobId (makeResourcesForJob nodes draws))
          timer table dial) = (s, [.toErlang .rejected (itoa jobId)])) := by
  have hInt : IsInt jobId := by
    constructor <;> omega
  refine ⟨fun hSome => ?_, fun hNone => ?_⟩
  · obtain ⟨fd, hFind⟩ := created draws hInt table timer dial s (drawn_ne_nil.mpr hSome)
    exact ⟨_, hFind, rfl, rfl, carries draws table⟩
  · have hEmpty : drawn draws = [] := by
      by_contra hNe
      obtain ⟨type, hType⟩ := drawn_ne_nil.mp hNe
      exact hType (hNone type)
    have hParse := parseErlang_jobRequestFormat hInt (makeResourcesForJob nodes draws)
    rw [wanted_makeResourcesForJob, hEmpty] at hParse
    rw [clientStep, hParse, List.map_nil, erlangToC, cToErlang_itoa hInt]

/-- One node, and draws that leave out the memory. -/
def oneNode : List Candidate :=
  [{ ip := "10.0.0.1".toList, port := 4200, cpu := 4, mem := 0, gpu := 2147483646
     quad := ⟨10, 0, 0, 1, by decide⟩
     amounts := by decide }]

def oneNodeDraws : ∀ type, Draw oneNode type
  | .cpu => ⟨⟨0, by decide⟩, ⟨3, by decide⟩⟩
  | .mem => ⟨⟨0, by decide⟩, ⟨0, by decide⟩⟩
  | .gpu => ⟨⟨0, by decide⟩, ⟨2147483646, by decide⟩⟩

theorem choice_survives_the_wire_oneNode :
    ∃ job, (clientStep .init (.erlang (jobRequestFormat 1001
          (makeResourcesForJob oneNode oneNodeDraws)) 7 (tablahashCreate _)
          (.connected 5))).1.findJob 1001 = some job ∧
      job.jobId = 1001 ∧ job.addr = 0 ∧ Carries oneNodeDraws (tablahashCreate _) job.nextReq :=
  (choice_survives_the_wire oneNodeDraws (by decide) _ _ _ .init).1 ⟨.cpu, by decide⟩

end ResourceAgent.Ports.Selection
