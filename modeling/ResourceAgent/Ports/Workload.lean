import ResourceAgent.Ports.Deadlock
import ResourceAgent.Verified.Potential

/-!
# What is left to do

`work` counts what the agents and the network still have to do for the jobs there
are: connections to accept and to take down, RESERVEs to send, lines to deliver,
answers to give, resources to ask for.  The weights are such that every step spends
more than the work it makes: RESERVE is heavier than the answer to it, and a request a
job has not made yet is heavier than the connection it will be made on.
-/

namespace ResourceAgent.Ports.Workload

open ResourceAgent.Ports.HashTable
open ResourceAgent.Ports.Records
open ResourceAgent.Ports.Wire
open ResourceAgent.Ports.Client
open ResourceAgent.Ports.Reservation
open ResourceAgent.Ports.Network
open ResourceAgent.Ports.NetInvariant
open ResourceAgent.Ports.Agreement
open ResourceAgent.Ports.Acquisition
open ResourceAgent.Verified.CText
open ResourceAgent.Verified.Potential

variable {A : Type}

/-! ## The measure -/

/-- A connection has to be accepted, and to be closed by the server. -/
def endWork (w : Wires A) (i : Nat) (c : Conn A) : Nat :=
  match c.serverEnd with
  | none => 2
  | some (fd, _) => if w.files c.server fd = some (i, .server) then 1 else 0

def connWork (w : Wires A) (i : Nat) (c : Conn A) : Nat :=
  endWork w i c + (if c.armed then 7 else 0) + (if c.served = none then 2 else 0) +
    4 * c.toServer.length + c.toClient.length

def wiresWork (w : Wires A) : Nat := total (connWork w) w.conns

/-- A job has to be released, each request to be made, and each grant to be given
back. -/
def jobWork (job : LocalJob) : Nat := 1 + 16 * job.nextReq.length + 4 * job.grantedReqs.length

/-- The work for job `x.2` of agent `x.1`, if it is there. -/
def workFor (clients : A → ClientState) (x : A × Int) : Nat :=
  ((clients x.1).findJob x.2).elim 0 jobWork

def jobsWork (used : List (A × Int)) (clients : A → ClientState) : Nat :=
  (used.map (workFor clients)).sum

/-- What is left to do for the jobs `used`. -/
def work (used : List (A × Int)) (net : Net A) : Nat :=
  wiresWork net.wires + jobsWork used (clientsOf net)

/-! ## Connections -/

section

variable {w w' : Wires A} {i : Nat} {c c' : Conn A}

/-- Server ends were only closed. -/
def FewerServers (w w' : Wires A) : Prop :=
  ∀ {b fd i}, w'.files b fd = some (i, .server) → w.files b fd = some (i, .server)

theorem endWork_le (hFiles : FewerServers w w') (hStatic : Static c c') :
    endWork w' i c' ≤ endWork w i c := by
  unfold endWork
  rw [hStatic.serverEnd, hStatic.server]
  split
  · exact le_refl _
  · split
    · rename_i hFile
      rw [if_pos (hFiles hFile)]
    · exact Nat.zero_le _

/-- The lines and the armed connections are the same, and a connection that is
served now was not heavier for it. -/
theorem connWork_le (hFiles : FewerServers w w') (hStatic : Static c c')
    (hRest : (if c'.armed then 7 else 0) + (if c'.served = none then 2 else 0) +
        4 * c'.toServer.length + c'.toClient.length ≤
      (if c.armed then 7 else 0) + (if c.served = none then 2 else 0) +
        4 * c.toServer.length + c.toClient.length) :
    connWork w' i c' ≤ connWork w i c := by
  have hEnd := endWork_le (i := i) hFiles hStatic
  unfold connWork
  omega

theorem connWork_files (hFiles : FewerServers w w') : connWork w' i c ≤ connWork w i c :=
  connWork_le hFiles (.refl c) (le_refl _)

theorem length_push (side : Side) (line : Text) (c : Conn A) :
    4 * (c.push side line).toServer.length + (c.push side line).toClient.length ≤
      4 * c.toServer.length + c.toClient.length + 4 := by
  unfold Conn.push
  split
  · omega
  · cases side
    · simp only [List.length_append, List.length_singleton]
      omega
    · simp only [List.length_append, List.length_singleton]
      omega

theorem push_armed (side : Side) (line : Text) (c : Conn A) :
    (c.push side line).armed = c.armed := by
  unfold Conn.push
  split
  · rfl
  · cases side <;> rfl

/-- A grant is less work than the request it answers. -/
theorem connWork_granting (g : Grant) (hServed : c.served = none) :
    connWork w i (granting g c) < connWork w i c := by
  have hStatic := granting_static g c
  have hEnd : endWork w i (granting g c) ≤ endWork w i c := endWork_le id hStatic
  have hSome := granting_served g c
  have hArmed : (granting g c).armed = c.armed := push_armed ..
  have hLines : 4 * (granting g c).toServer.length + (granting g c).toClient.length ≤
      4 * c.toServer.length + c.toClient.length + 1 := by
    unfold granting Conn.push
    split
    · exact Nat.le_succ _
    · simp only [List.length_append, List.length_singleton]
      omega
  unfold connWork
  rw [hArmed, hSome, hServed]
  simp only [reduceCtorEq, if_false, if_true]
  omega

end

/-! ## Effects -/

section

variable [DecidableEq A] {w : Wires A} {route : Text → Int → A} {a : A} {fd : Int}

/-- A line that is sent has to be delivered. -/
theorem wiresWork_send (line : Text) :
    wiresWork (w.perform route a (.send fd line)) ≤ wiresWork w + 4 := by
  simp only [Wires.perform]
  split
  · rename_i i side hFile
    cases hConn : w.conns[i]? with
    | none =>
        have hSame : w.modify i (Conn.push side line) = w := by
          have hLength : w.conns.length ≤ i := List.getElem?_eq_none_iff.mp hConn
          unfold Wires.modify
          rw [List.modify_eq_self hLength]
        rw [hSame]
        exact Nat.le_add_right _ _
    | some c =>
        have hTotal := total_modify (connWork w) (Conn.push side line) hConn
        have hStatic := (push_quiet side line c).toStatic
        have hEnd : endWork w i (c.push side line) ≤ endWork w i c := endWork_le id hStatic
        have hServed := (push_quiet side line c).served
        have hArmed := push_armed side line c
        have hLines := length_push side line c
        have hHeavier : connWork w i (c.push side line) ≤ connWork w i c + 4 := by
          unfold connWork
          rw [hServed, hArmed]
          omega
        show total (connWork w) (w.conns.modify i (Conn.push side line)) ≤ _ + 4
        unfold wiresWork
        omega
  · exact Nat.le_add_right _ _

theorem fewerServers_close : FewerServers w (w.setFile a fd none) :=
  fun hFile => (files_close.mp hFile).1

theorem wiresWork_close : wiresWork (w.setFile a fd none) ≤ wiresWork w := by
  apply total_le rfl
  intro i c c' hOld hNew
  have hSame : some c = some c' := hOld.symm.trans hNew
  cases hSame
  exact connWork_files fewerServers_close

theorem wiresWork_releaseProvider (w : Wires A) (route : Text → Int → A) (a : A) (jobId : Int)
    (g : PendingResource) :
    wiresWork (w.performAll route a (releaseProvider jobId g)) ≤ wiresWork w + 4 := by
  unfold releaseProvider
  split
  · have hSent : wiresWork (w.perform route a
        (.send g.providerFd (releaseLine jobId g.type g.amount))) ≤ wiresWork w + 4 :=
      wiresWork_send _
    exact le_trans wiresWork_close hSent
  · exact Nat.le_add_right _ _

/-- `release_resources` gives back what the job holds. -/
theorem wiresWork_releaseAll {jobId : Int} (gs : List PendingResource) :
    ∀ {w : Wires A}, wiresWork (w.performAll route a (gs.flatMap (releaseProvider jobId))) ≤
      wiresWork w + 4 * gs.length := by
  induction gs with
  | nil => exact fun {w} => le_refl _
  | cons g gs ih =>
      intro w
      rw [List.flatMap_cons, performAll_append, List.length_cons]
      have hOne := wiresWork_releaseProvider w route a jobId g
      have hRest := ih (w := w.performAll route a (releaseProvider jobId g))
      omega

/-- A new connection. -/
theorem wiresWork_connect {jobId : Int} {req : PendingResource} (hFree : w.files a fd = none) :
    wiresWork (w.performAll route a [.connect fd jobId req, .epollAdd fd]) ≤ wiresWork w + 11 := by
  rw [performAll_connect hFree]
  have hFiles : FewerServers w (w.perform route a (.connect fd jobId req)) := by
    intro b fd' i hFile
    rcases (files_connect hFree).mp hFile with hOld | ⟨-, -, hNew⟩
    · exact hOld
    · cases hNew
  have hConn : (w.perform route a (.connect fd jobId req)).conns[w.conns.length]? =
      some (.opened a fd (route req.destIp req.destPort) jobId req) :=
    conns_connect.mpr (.inr ⟨rfl, rfl⟩)
  have hArmed := total_modify (connWork (w.perform route a (.connect fd jobId req)))
    (fun c => { c with armed := true }) hConn
  have hAppend := total_append_singleton (connWork (w.perform route a (.connect fd jobId req)))
    w.conns (.opened a fd (route req.destIp req.destPort) jobId req)
  have hOld : total (connWork (w.perform route a (.connect fd jobId req))) w.conns ≤
      total (connWork w) w.conns := by
    apply total_le rfl
    intro i c c' hOld hNew
    cases hOld.symm.trans hNew
    exact connWork_files hFiles
  have hNew : ∀ w' : Wires A, connWork w' w.conns.length
      { Conn.opened a fd (route req.destIp req.destPort) jobId req with armed := true } = 11 :=
    fun _ => rfl
  show total (connWork (w.perform route a (.connect fd jobId req))) _ ≤ total (connWork w) _ + 11
  have hConns : (w.perform route a (.connect fd jobId req)).conns =
      w.conns ++ [.opened a fd (route req.destIp req.destPort) jobId req] := rfl
  rw [hConns] at hArmed
  rw [hNew] at hArmed
  show total _ ((w.perform route a (.connect fd jobId req)).conns.modify _ _) ≤ _
  rw [hConns]
  omega

end

end ResourceAgent.Ports.Workload
