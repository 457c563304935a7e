import ResourceAgent.Ports.Streams

/-!
# Streams of bytes behave like lines

`Follows` relates the connections of `Streams` to those of `Network`: the same descriptors, the
same connections, and at every end that can still be read the bytes in the buffer of its descriptor
followed by the bytes on their way are the lines `Network` has there, with nothing behind them
unless the connection has failed.

A handler keeps the relation because what it writes is plain (`Follows.performAll`).  A turn keeps
it whatever the chunk it receives (`turned`): it takes the first line off, or nothing, or finds the
end where `Network` has no line left.  Hence every run of `Streams` is a run of `Network`, with the
same states of the agents.
-/

namespace ResourceAgent.Ports.StreamRefinement

open ResourceAgent.Ports.HashTable
open ResourceAgent.Ports.Records
open ResourceAgent.Ports.Wire
open ResourceAgent.Ports.Client
open ResourceAgent.Ports.Reservation
open ResourceAgent.Ports.Framing
open ResourceAgent.Ports.Network
open ResourceAgent.Ports.NetInvariant
open ResourceAgent.Ports.Streams
open ResourceAgent.Verified.CText
open ResourceAgent.Verified.CBuffer
open ResourceAgent.Verified.Lines
open ResourceAgent.Verified.Runs

/-! ## One call on a stream that carries lines -/

/-- A stream with these lines; only of a connection that has failed a piece is left behind. -/
def Streaming (broken : Bool) (s : Text) (ls : List Text) : Prop :=
  '\x00' ∉ s ∧ ∃ part, Carries '\n' 1023 s ls part ∧ (broken = false → part = [])

section

variable {broken : Bool} {pending incoming s : Text} {ls : List Text} {arrival : Arrival}

theorem streaming_nil (broken : Bool) : Streaming broken [] [] :=
  ⟨by simp, [], .nil (by decide), fun _ => rfl⟩

/-- A plain line is written. -/
theorem Streaming.write (h : Streaming false s ls) {line : Text} (hLine : IsPlain line) :
    Streaming false (s ++ line) (ls ++ [line]) := by
  obtain ⟨hNul, part, hCarries, hWhole⟩ := h
  rw [hWhole rfl] at hCarries
  exact ⟨by simp [hNul, hLine.nul], [], hCarries.snoc hLine.isLine hLine.length, fun _ => rfl⟩

/-- The first line is read. -/
theorem Streaming.read (h : Streaming broken (pending ++ incoming) ls) {i : Nat}
    (hFound : strchr '\n' pending = some i) :
    ∃ rest, ls = pending.take (i + 1) :: rest ∧
      Streaming broken (pending.drop (i + 1) ++ incoming) rest := by
  obtain ⟨hNul, part, hCarries, hWhole⟩ := h
  obtain ⟨body, rest, rfl, hBody, rfl⟩ := strchr_eq_some hFound
  have hTake : (body ++ '\n' :: rest).take (body.length + 1) = body ++ ['\n'] := by
    simp [List.take_append]
  have hDrop : (body ++ '\n' :: rest).drop (body.length + 1) = rest := by
    simp [List.drop_append]
  rw [hTake, hDrop]
  rw [List.append_assoc, List.cons_append] at hCarries hNul
  obtain ⟨ls', rfl, hRest⟩ := hCarries.first hBody
  refine ⟨ls', rfl, fun hMem => hNul ?_, part, hRest, hWhole⟩
  exact List.mem_append_right _ (List.mem_cons_of_mem _ hMem)

/-- A buffer without a newline in it is not full. -/
theorem Streaming.room (h : Streaming broken (pending ++ incoming) ls)
    (hNone : strchr '\n' pending = none) :
    '\n' ∉ pending ∧ (if pending.length = 1023 then [] else pending) = pending := by
  obtain ⟨hNul, part, hCarries, -⟩ := h
  have hMiss : '\n' ∉ pending :=
    strchr_eq_none (fun hMem => hNul (List.mem_append_left _ hMem)) hNone
  have hLess := hCarries.length_lt hMiss
  exact ⟨hMiss, if_neg (by omega)⟩

/-- The rest of the stream is lost. -/
theorem Streaming.cut (h : Streaming broken s ls) (k : Nat) :
    Streaming true (s.take k) (ls.take ((s.take k).count '\n')) := by
  obtain ⟨hNul, part, hCarries, -⟩ := h
  obtain ⟨rest, hRest⟩ := hCarries.take k
  exact ⟨fun hMem => hNul (List.mem_of_mem_take hMem), rest, hRest, fun hWhole => nomatch hWhole⟩

/-- **What a call does with a stream of lines.** -/
theorem turned {r : Text × Text × Reading} (h : Streaming broken (pending ++ incoming) ls)
    (hCalled : Called arrival pending incoming r) :
    (∃ text rest, r.2.2 = .line text ∧ ls = text :: rest ∧ Streaming broken (r.2.1 ++ r.1) rest) ∨
      (r.2.2 = .more ∧ Streaming broken (r.2.1 ++ r.1) ls) ∨
      (r.2.2 = .closed ∧ ls = [] ∧ incoming = [] ∧ r.1 = []) := by
  cases hCalled with
  | buffered hFound =>
      obtain ⟨rest, hFirst, hRest⟩ := h.read hFound
      exact .inl ⟨_, rest, rfl, hFirst, hRest⟩
  | nothing hNone hRoom _ =>
      rw [hRoom, (h.room hNone).2]
      exact .inr (.inl ⟨rfl, h⟩)
  | ended hNone _ hEnd =>
      obtain ⟨-, part, hCarries, -⟩ := id h
      refine .inr (.inr ⟨rfl, hCarries.eq_nil ?_, hEnd, rfl⟩)
      simpa [hEnd] using (h.room hNone).1
  | @partly q n hNone hRoom _ _ _ =>
      rw [hRoom, (h.room hNone).2]
      refine .inr (.inl ⟨rfl, ?_⟩)
      rwa [List.append_assoc, List.take_append_drop]
  | @completed q n i hNone hRoom _ _ hFound =>
      rw [hRoom, (h.room hNone).2] at hFound ⊢
      have hSame : Streaming broken ((pending ++ incoming.take n) ++ incoming.drop n) ls := by
        rwa [List.append_assoc, List.take_append_drop]
      obtain ⟨rest, hFirst, hRest⟩ := hSame.read hFound
      exact .inl ⟨_, rest, rfl, hFirst, hRest⟩

/-- Only the end of the stream closes a connection. -/
theorem eof_of_closed (h : (readPending (recvFrom arrival) incoming pending).2.2 = .closed) :
    arrival = .eof := by
  cases arrival with
  | eof => rfl
  | again =>
      rw [readPending] at h
      split at h
      · cases h
      · cases h
  | upTo n =>
      rw [readPending] at h
      split at h
      · cases h
      · cases incoming with
        | nil => cases h
        | cons x xs =>
            simp only [recvFrom] at h
            split at h <;> cases h

end

/-! ## Two records of the connections -/

section

variable {A : Type}

/-- A connection without what is on its way. -/
def bare (c : Conn A) : Conn A := { c with toServer := [], toClient := [] }

/-- The two records of connection `i`.  An end that was closed does not read any more. -/
structure Agrees (connections : A → Buffers) (files : A → Int → Option (Nat × Side)) (i : Nat)
    (c c' : Conn A) : Prop where
  same : bare c' = bare c
  streaming : ∀ side, (∀ fd ∈ c.fd side, files (c.agent side) fd = some (i, side)) →
    Streaming c.broken (unread connections c side) (c'.inbox side)

structure Follows (connections : A → Buffers) (w w' : Wires A) : Prop where
  files : w'.files = w.files
  length : w'.conns.length = w.conns.length
  conns : ∀ {i : Nat} {c : Conn A}, w.conns[i]? = some c →
    ∃ c', w'.conns[i]? = some c' ∧ Agrees connections w.files i c c'
  fits : ∀ {a fd x}, w.files a fd = some x → 0 ≤ fd ∧ fd < maxFds

variable {connections connections' : A → Buffers} {w w' v v' : Wires A} {i : Nat} {c c' : Conn A}

theorem fd_eq (h : bare c' = bare c) (side : Side) : c'.fd side = c.fd side := by
  have hFd := congrArg (fun d : Conn A => d.fd side) h
  cases side <;> exact hFd

theorem agent_eq (h : bare c' = bare c) (side : Side) : c'.agent side = c.agent side := by
  have hAgent := congrArg (fun d : Conn A => d.agent side) h
  cases side <;> exact hAgent

theorem broken_eq (h : bare c' = bare c) : c'.broken = c.broken := by
  have hBroken := congrArg (fun d : Conn A => d.broken) h
  exact hBroken

theorem fd_setInbox (side side' : Side) (texts : List Text) (c : Conn A) :
    (setInbox side texts c).fd side' = c.fd side' := by
  cases side <;> cases side' <;> rfl

theorem agent_setInbox (side side' : Side) (texts : List Text) (c : Conn A) :
    (setInbox side texts c).agent side' = c.agent side' := by
  cases side <;> cases side' <;> rfl

theorem inbox_setInbox (side side' : Side) (texts : List Text) (c : Conn A) :
    (setInbox side texts c).inbox side' = if side' = side then texts else c.inbox side' := by
  cases side <;> cases side' <;> rfl

theorem bare_setInbox (side : Side) (texts : List Text) (c : Conn A) :
    bare (setInbox side texts c) = bare c := by
  cases side <;> rfl

/-- A line that is read is noted in the same way in both records. -/
theorem bare_read (h : bare c' = bare c) {side : Side} {text rest : Text} {ls : List Text}
    (hInbox : c'.inbox side = text :: ls) (s : ServerState) :
    bare (c'.read side s) = bare ((setInbox side [text, rest] c).read side s) := by
  cases side with
  | client => exact h
  | server =>
      have hInbox : c'.toServer = text :: ls := hInbox
      have hReserve : c'.reserveRead s = (setInbox .server [text, rest] c).reserveRead s := by
        have hReceived := congrArg (fun d : Conn A => (d.serverEnd, d.received)) h
        simp only [bare, Prod.mk.injEq] at hReceived
        simp only [Conn.reserveRead, setInbox, hInbox, List.head?_cons, hReceived]
      have hNoted : bare (c'.read .server s) = { bare c with received := c'.reserveRead s } :=
        congrArg (fun d : Conn A => { d with received := c'.reserveRead s }) h
      rw [hNoted, hReserve]
      rfl

/-- A connection of `Network` is one of `Streams`. -/
theorem Follows.back (h : Follows connections w w') (hConn : w'.conns[i]? = some c') :
    ∃ c, w.conns[i]? = some c ∧ Agrees connections w.files i c c' := by
  obtain ⟨hLt, -⟩ := List.getElem?_eq_some_iff.mp hConn
  rw [h.length] at hLt
  obtain ⟨c, hc⟩ : ∃ c, w.conns[i]? = some c := ⟨_, List.getElem?_eq_getElem hLt⟩
  obtain ⟨d, hd, hAgrees⟩ := h.conns hc
  rw [hConn] at hd
  cases hd
  exact ⟨c, hc, hAgrees⟩

/-- Only the buffers of the descriptors of an end matter to it. -/
theorem Agrees.rebuffer {files : A → Int → Option (Nat × Side)}
    (h : Agrees connections files i c c')
    (hSame : ∀ a fd side, files a fd = some (i, side) → connections' a fd = connections a fd) :
    Agrees connections' files i c c' where
  same := h.same
  streaming side hOpen := by
    have hUnread : unread connections' c side = unread connections c side := by
      unfold unread pendingAt
      cases hFd : c.fd side with
      | none => rfl
      | some fd => simp only [Option.map_some, hSame _ _ _ (hOpen fd hFd)]
    rw [hUnread]
    exact h.streaming side hOpen

/-- **Changing one connection**, and buffers that the others do not need. -/
theorem Follows.change (h : Follows connections w w') (hFiles : v.files = w.files)
    (hFiles' : v'.files = w'.files) (hLength : v.conns.length = w.conns.length)
    (hLength' : v'.conns.length = w'.conns.length)
    (hBuffers : ∀ a fd j side, j ≠ i → w.files a fd = some (j, side) →
      connections' a fd = connections a fd)
    (hElse : ∀ j, j ≠ i → v.conns[j]? = w.conns[j]?)
    (hElse' : ∀ j, j ≠ i → v'.conns[j]? = w'.conns[j]?)
    (hHere : ∀ {d}, v.conns[i]? = some d →
      ∃ d', v'.conns[i]? = some d' ∧ Agrees connections' w.files i d d') :
    Follows connections' v v' where
  files := by rw [hFiles, hFiles', h.files]
  length := by rw [hLength, hLength', h.length]
  conns {j d} hConn := by
    rw [hFiles]
    by_cases hSame : j = i
    · subst hSame
      exact hHere hConn
    · rw [hElse j hSame] at hConn
      obtain ⟨d', hConn', hAgrees⟩ := h.conns hConn
      refine ⟨d', (hElse' j hSame).trans hConn', hAgrees.rebuffer fun a fd side hFile => ?_⟩
      exact hBuffers a fd j side hSame hFile
  fits hFile := h.fits (hFiles ▸ hFile)

theorem Follows.modify (h : Follows connections w w') {f g : Conn A → Conn A}
    (hf : ∀ {c c'}, w.conns[i]? = some c → Agrees connections w.files i c c' →
      Agrees connections w.files i (f c) (g c')) :
    Follows connections (w.modify i f) (w'.modify i g) := by
  refine h.change (i := i) rfl rfl ?_ ?_ (fun _ _ _ _ _ _ => rfl)
    (fun j hj => conns_modify_ne hj.symm) (fun j hj => conns_modify_ne hj.symm) ?_
  · simp [Wires.modify]
  · simp [Wires.modify]
  · intro d hd
    obtain ⟨c, hc, rfl⟩ : ∃ c, w.conns[i]? = some c ∧ d = f c := by
      rw [conns_modify, Option.map_eq_some_iff] at hd
      obtain ⟨c, hc, hEq⟩ := hd
      exact ⟨c, hc, by simpa using hEq.symm⟩
    obtain ⟨c', hc', hAgrees⟩ := h.conns hc
    exact ⟨g c', conns_modify_self hc', hf hc hAgrees⟩

/-- A call has received some bytes at one end, and perhaps taken a line off. -/
theorem Follows.receive [DecidableEq A] (h : Follows connections w w') {side : Side} {fd : Int}
    (hConn : w.conns[i]? = some c) (hConn' : w'.conns[i]? = some c') (hFd : c.fd side = some fd)
    (hOpen : w.files (c.agent side) fd = some (i, side)) {buffers : Buffers}
    (hBuffers : ∀ fd', fd' ≠ fd → buffers fd' = connections (c.agent side) fd')
    {f g : Conn A → Conn A} (hSame : bare (g c') = bare (f c)) (hBroken : (f c).broken = c.broken)
    (hEnds : ∀ side', (f c).fd side' = c.fd side' ∧ (f c).agent side' = c.agent side')
    (hOther : ∀ side', side' ≠ side →
      (f c).inbox side' = c.inbox side' ∧ (g c').inbox side' = c'.inbox side')
    (hStreaming : Streaming c.broken ((buffers fd).pending ++ ((f c).inbox side).flatten)
      ((g c').inbox side)) :
    Follows (Function.update connections (c.agent side) buffers) (w.modify i f)
      (w'.modify i g) := by
  obtain ⟨d', hd', hAgrees⟩ := h.conns hConn
  obtain rfl := Option.some.inj (hConn'.symm.trans hd')
  -- the buffer belongs to this end
  have hElse : ∀ a fd' x, w.files a fd' = some x → x ≠ (i, side) →
      Function.update connections (c.agent side) buffers a fd' = connections a fd' := by
    intro a fd' x hFile hNe
    by_cases hAgent : a = c.agent side
    · subst hAgent
      rw [Function.update_self]
      refine hBuffers fd' ?_
      rintro rfl
      exact hNe (Option.some.inj (hFile.symm.trans hOpen))
    · rw [Function.update_of_ne hAgent]
  refine h.change (i := i) rfl rfl ?_ ?_ ?_ (fun j hj => conns_modify_ne hj.symm)
    (fun j hj => conns_modify_ne hj.symm) ?_
  · simp [Wires.modify]
  · simp [Wires.modify]
  · exact fun a fd' j side' hj hFile => hElse a fd' _ hFile fun hEq => hj (congrArg Prod.fst hEq)
  · intro d hd
    rw [conns_modify_self hConn] at hd
    cases hd
    refine ⟨_, conns_modify_self hConn', hSame, fun side' hStill => ?_⟩
    obtain ⟨hFd', hAgent'⟩ := hEnds side'
    rw [hFd', hAgent'] at hStill
    rw [hBroken, unread, pendingAt, hFd', hAgent']
    by_cases hSide : side' = side
    · subst hSide
      rw [hFd, Option.map_some, Option.getD_some, Function.update_self]
      exact hStreaming
    · obtain ⟨hInbox, hInbox'⟩ := hOther side' hSide
      have hPending := hAgrees.streaming side' hStill
      rw [unread, pendingAt] at hPending
      rw [hInbox, hInbox']
      cases hEnd : c.fd side' with
      | none =>
          rw [hEnd] at hPending
          exact hPending
      | some fd' =>
          rw [hEnd] at hPending
          rw [Option.map_some, Option.getD_some,
            hElse _ _ _ (hStill fd' hEnd) fun hEq => hSide (congrArg Prod.snd hEq)]
          exact hPending

/-- Buffers of descriptors that are not open do not matter. -/
theorem Follows.rebuffer (h : Follows connections w w')
    (hSame : ∀ a fd x, w.files a fd = some x → connections' a fd = connections a fd) :
    Follows connections' w w' where
  files := h.files
  length := h.length
  conns hConn := by
    obtain ⟨c', hConn', hAgrees⟩ := h.conns hConn
    exact ⟨c', hConn', hAgrees.rebuffer fun a fd side => hSame a fd _⟩
  fits := h.fits

end

/-! ## What a handler does to the two records -/

section

variable {A : Type} {connections : A → Buffers} {w w' : Wires A}

/-- A change that leaves alone what is on its way. -/
theorem Agrees.inert {files : A → Int → Option (Nat × Side)} {i : Nat} {c c' d d' : Conn A}
    (h : Agrees connections files i c c') (hSame : bare d' = bare d)
    (hEnds : ∀ side, d.fd side = c.fd side ∧ d.agent side = c.agent side ∧
      d.inbox side = c.inbox side ∧ d'.inbox side = c'.inbox side)
    (hBroken : d.broken = c.broken) : Agrees connections files i d d' where
  same := hSame
  streaming side hOpen := by
    obtain ⟨hFd, hAgent, hInbox, hInbox'⟩ := hEnds side
    rw [hFd, hAgent] at hOpen
    have hUnread : unread connections d side = unread connections c side := by
      unfold unread pendingAt
      rw [hFd, hAgent, hInbox]
    rw [hBroken, hUnread, hInbox']
    exact h.streaming side hOpen

theorem bare_push (side : Side) (line : Text) (c : Conn A) : bare (c.push side line) = bare c := by
  unfold Conn.push
  split
  · rfl
  · cases side <;> rfl

theorem push_broken {c : Conn A} (h : c.broken = true) (side : Side) (line : Text) :
    c.push side line = c := by
  simp only [Conn.push, h, if_true]

theorem inbox_push {c : Conn A} (h : c.broken = false) (side side' : Side) (line : Text) :
    (c.push side line).inbox side' =
      if side' = side then c.inbox side' else c.inbox side' ++ [line] := by
  unfold Conn.push
  rw [h]
  cases side <;> cases side' <;> rfl

/-- A plain line goes into both. -/
theorem Agrees.push {files : A → Int → Option (Nat × Side)} {i : Nat} {c c' : Conn A}
    (h : Agrees connections files i c c') (side : Side) {line : Text} (hLine : IsPlain line) :
    Agrees connections files i (c.push side line) (c'.push side line) := by
  have hBroken := broken_eq h.same
  cases hLost : c.broken with
  | true =>
      rw [push_broken hLost, push_broken (hBroken.trans hLost)]
      exact h
  | false =>
      have hBare := bare_push side line c
      refine ⟨by rw [hBare, bare_push, h.same], fun side' hOpen => ?_⟩
      rw [fd_eq hBare, agent_eq hBare] at hOpen
      have hStreaming := h.streaming side' hOpen
      rw [hLost] at hStreaming
      have hPending : pendingAt connections (c.push side line) side' =
          pendingAt connections c side' := by
        rw [pendingAt, pendingAt, fd_eq hBare, agent_eq hBare]
      rw [broken_eq hBare, hLost, unread, hPending, inbox_push hLost,
        inbox_push (hBroken.trans hLost)]
      split
      · exact hStreaming
      · rw [List.flatten_append, List.flatten_singleton, ← List.append_assoc]
        exact hStreaming.write hLine

variable [DecidableEq A]

/-- A descriptor is closed: its end reads no more. -/
theorem Follows.close (h : Follows connections w w') (a : A) (fd : Int) :
    Follows connections (w.setFile a fd none) (w'.setFile a fd none) where
  files := by
    simp only [Wires.setFile, h.files]
  length := h.length
  conns hConn := by
    obtain ⟨c', hConn', hAgrees⟩ := h.conns hConn
    refine ⟨c', hConn', hAgrees.same, fun side hOpen => hAgrees.streaming side fun fd' hFd => ?_⟩
    exact (files_close.mp (hOpen fd' hFd)).1
  fits hFile := h.fits (files_close.mp hFile).1

/-- A new connection on a spare descriptor. -/
theorem Follows.connect (h : Follows connections w w') (route : Text → Int → A) {a : A}
    {fd jobId : Int} {req : PendingResource} (hSpare : Spare (connections a) fd) :
    Follows connections (w.perform route a (.connect fd jobId req))
      (w'.perform route a (.connect fd jobId req)) := by
  have hOld : ∀ {a' fd' x}, (w.perform route a (.connect fd jobId req)).files a' fd' = some x →
      w.files a' fd' = some x ∨ (a' = a ∧ fd' = fd ∧ x = (w.conns.length, .client)) := by
    intro a' fd' x hFile
    simp only [Wires.perform, Wires.setFile] at hFile
    split at hFile
    · rename_i hSame
      exact .inr ⟨hSame.1, hSame.2, (Option.some.inj hFile).symm⟩
    · exact .inl hFile
  refine ⟨?_, ?_, ?_, ?_⟩
  · simp only [Wires.perform, Wires.setFile, h.files, h.length]
  · simp only [Wires.perform, Wires.setFile, List.length_append, h.length, List.length_singleton]
  · intro i c hConn
    rcases conns_connect.mp hConn with hConn | ⟨rfl, rfl⟩
    · obtain ⟨c', hConn', hAgrees⟩ := h.conns hConn
      refine ⟨c', conns_connect.mpr (.inl hConn'), hAgrees.same, fun side hOpen => ?_⟩
      refine hAgrees.streaming side fun fd' hFd => ?_
      rcases hOld (hOpen fd' hFd) with hFile | ⟨-, -, hNew⟩
      · exact hFile
      · cases hNew
        exact absurd (List.getElem?_eq_some_iff.mp hConn).1 (Nat.lt_irrefl _)
    · refine ⟨_, conns_connect.mpr (.inr ⟨h.length.symm, rfl⟩), rfl, fun side _ => ?_⟩
      have hEmpty : unread connections
          (Conn.opened a fd (route req.destIp req.destPort) jobId req) side = [] := by
        cases side with
        | client =>
            have hPending : (connections a fd).pending = [] := by
              rw [Connection.pending, hSpare.2.2, List.take_zero]
            simp [unread, pendingAt, Conn.fd, Conn.agent, Conn.inbox, Conn.opened, hPending]
        | server => simp [unread, pendingAt, Conn.fd, Conn.inbox, Conn.opened]
      rw [hEmpty]
      cases side <;> exact streaming_nil _
  · intro a' fd' x hFile
    rcases hOld hFile with hFile | ⟨-, rfl, -⟩
    · exact h.fits hFile
    · exact ⟨hSpare.1, hSpare.2.1⟩

/-- The server end of a connection gets a spare descriptor. -/
theorem Follows.accept (h : Follows connections w w') {i fd : Nat} {addr : Addr} {c : Conn A}
    (hConn : w.conns[i]? = some c) (hNone : c.serverEnd = none)
    (hSpare : Spare (connections c.server) fd) :
    Follows connections (w.accept i fd addr) (w'.accept i fd addr) := by
  obtain ⟨c', hConn', hAgrees⟩ := h.conns hConn
  have hServer : c'.server = c.server := agent_eq hAgrees.same .server
  have hOld : ∀ {a' fd' x}, (w.accept i fd addr).files a' fd' = some x →
      w.files a' fd' = some x ∨ (fd' = fd ∧ x = (i, .server)) := by
    intro a' fd' x hFile
    simp only [Wires.accept, hConn, Wires.setFile, Wires.modify] at hFile
    split at hFile
    · rename_i hSame
      exact .inr ⟨hSame.2, (Option.some.inj hFile).symm⟩
    · exact .inl hFile
  have hConns : ∀ (v : Wires A) (d : Conn A), v.conns[i]? = some d → ∀ j,
      (v.accept i fd addr).conns[j]? = v.conns[j]?.map fun d =>
        if i = j then { d with serverEnd := some ((fd : Int), addr) } else d := by
    intro v d hd j
    simp only [Wires.accept, hd, Wires.setFile]
    exact conns_modify v i j _
  refine ⟨?_, ?_, ?_, ?_⟩
  · simp only [Wires.accept, hConn, hConn', Wires.setFile, Wires.modify, h.files, hServer]
  · simp [Wires.accept, hConn, hConn', Wires.setFile, Wires.modify, h.length]
  · intro j d hd
    rw [hConns w c hConn, Option.map_eq_some_iff] at hd
    obtain ⟨e, he, rfl⟩ := hd
    obtain ⟨e', he', hAgrees'⟩ := h.conns he
    refine ⟨_, by rw [hConns w' c' hConn', he', Option.map_some], ?_⟩
    by_cases hSame : i = j
    · subst hSame
      obtain rfl := Option.some.inj (he.symm.trans hConn)
      simp only [if_true]
      refine ⟨congrArg (fun x : Conn A => { x with serverEnd := some ((fd : Int), addr) })
        hAgrees'.same, fun side hOpen => ?_⟩
      cases side with
      | client =>
          refine hAgrees'.streaming .client fun fd' hFd => ?_
          rcases hOld (hOpen fd' hFd) with hFile | ⟨-, hNew⟩
          · exact hFile
          · cases hNew
      | server =>
          -- nothing was received on it, and nothing is in the buffer
          have hStreaming := hAgrees'.streaming .server fun fd' hFd => by
            simp [Conn.fd, hNone] at hFd
          have hPending : (connections e.server fd).pending = [] := by
            rw [Connection.pending, hSpare.2.2, List.take_zero]
          simpa [unread, pendingAt, Conn.fd, Conn.agent, Conn.inbox, hNone, hPending]
            using hStreaming
    · simp only [hSame, if_false]
      refine ⟨hAgrees'.same, fun side hOpen => hAgrees'.streaming side fun fd' hFd => ?_⟩
      rcases hOld (hOpen fd' hFd) with hFile | ⟨-, hNew⟩
      · exact hFile
      · cases hNew
        exact absurd rfl hSame
  · intro a' fd' x hFile
    rcases hOld hFile with hFile | ⟨rfl, -⟩
    · exact h.fits hFile
    · exact ⟨hSpare.1, hSpare.2.1⟩

theorem Follows.perform (h : Follows connections w w') (route : Text → Int → A) {a : A}
    {e : Effect} (hSound : Sound (connections a) e) :
    Follows connections (w.perform route a e) (w'.perform route a e) := by
  cases e with
  | send fd line =>
      cases hFile : w.files a fd with
      | none =>
          rw [perform_send_closed hFile, perform_send_closed (by rw [h.files, hFile])]
          exact h
      | some x =>
          have hFile' : w'.files a fd = some (x.1, x.2) := by rw [h.files, hFile]
          have hOpen : w.files a fd = some (x.1, x.2) := hFile
          rw [perform_send hOpen, perform_send hFile']
          exact h.modify fun _ hAgrees => hAgrees.push x.2 hSound
  | close fd => exact h.close a fd
  | connect fd jobId req => exact h.connect route hSound
  | epollAdd fd =>
      simp only [Wires.perform, h.files]
      split
      · exact h.modify fun _ hAgrees => hAgrees.inert
          (congrArg (fun d : Conn A => { d with armed := true }) hAgrees.same)
          (fun side => by cases side <;> exact ⟨rfl, rfl, rfl, rfl⟩) rfl
      · exact h
  | recorded r req =>
      simp only [Wires.perform, h.files]
      split
      · exact h.modify fun _ hAgrees => hAgrees.inert
          (congrArg (fun d : Conn A => { d with served := some (r, req) }) hAgrees.same)
          (fun side => by cases side <;> exact ⟨rfl, rfl, rfl, rfl⟩) rfl
      · exact h
  | _ => exact h

/-- **What a handler writes is read as it was written.** -/
theorem Follows.performAll (h : Follows connections w w') (route : Text → Int → A) {a : A}
    {out : List Effect} (hSound : ∀ e ∈ out, Sound (connections a) e) :
    Follows connections (w.performAll route a out) (w'.performAll route a out) := by
  induction out generalizing w w' with
  | nil => exact h
  | cons e out ih =>
      exact ih (h.perform route (hSound e List.mem_cons_self))
        fun x hx => hSound x (List.mem_cons_of_mem _ hx)

end

/-! ## What the two records allow -/

section

variable {A : Type} {connections : A → Buffers} {w w' : Wires A} {i : Nat}
  {c c' : Conn A}

theorem Follows.free (h : Follows connections w w') {a : A} {dial : Dial} (hFree : w.Free a dial) :
    w'.Free a dial := by
  cases dial <;> simp only [Wires.Free, h.files] at hFree ⊢ <;> exact hFree

theorem Follows.isOpen (h : Follows connections w w') (hSame : bare c' = bare c) {side : Side}
    (hOpen : w.IsOpen i c side) : w'.IsOpen i c' side := by
  obtain ⟨fd, hFd, hFile⟩ := hOpen
  refine ⟨fd, (fd_eq hSame side).symm ▸ hFd, ?_⟩
  rw [h.files, agent_eq hSame, hFile]

theorem Follows.isClosed (h : Follows connections w w') (hSame : bare c' = bare c) {side : Side}
    (hClosed : w.IsClosed i c side) : w'.IsClosed i c' side := by
  obtain ⟨fd, hFd, hFile⟩ := hClosed
  refine ⟨fd, (fd_eq hSame side).symm ▸ hFd, ?_⟩
  rwa [h.files, agent_eq hSame]

theorem serverEnd_eq (h : bare c' = bare c) : c'.serverEnd = c.serverEnd := by
  have hEnd := congrArg (fun d : Conn A => d.serverEnd) h
  exact hEnd

theorem server_eq (h : bare c' = bare c) : c'.server = c.server := agent_eq h .server

theorem Follows.named (h : Follows connections w w') {a : A} {names : Int → Option Addr}
    (hNamed : w.Named a names) : w'.Named a names := by
  intro j hj d' hd' x hx hServer hFile
  obtain ⟨d, hd, hAgrees⟩ := h.back hd'
  rw [serverEnd_eq hAgrees.same] at hx
  rw [server_eq hAgrees.same] at hServer
  rw [h.files] at hFile
  have hAnswers := hNamed j (h.length ▸ hj) d hd x hx hServer hFile
  rw [Conn.Answers, broken_eq hAgrees.same]
  exact hAnswers

theorem Follows.unused (h : Follows connections w w') {b : A} {addr : Addr}
    (hUnused : w.Unused b addr) : w'.Unused b addr := by
  intro j hj d' hd' x hx hServer hFile
  obtain ⟨d, hd, hAgrees⟩ := h.back hd'
  rw [serverEnd_eq hAgrees.same] at hx
  rw [server_eq hAgrees.same] at hServer
  rw [h.files] at hFile
  exact hUnused j (h.length ▸ hj) d hd x hx hServer hFile

end

/-! ## The two systems -/

section

variable {A : Type} [DecidableEq A] (route : Text → Int → A)

/-- The agents are in the same states, and what is on its way agrees. -/
structure Related (b : ByteNet A) (net : Net A) : Prop where
  agents : net.agents = b.net.agents
  wires : Follows b.connections b.net.wires net.wires
  asks : ∀ a, Asks (b.net.agents a).client
  grants : ∀ a, Grants (b.net.agents a).server

variable {b : ByteNet A} {net : Net A}

omit [DecidableEq A] in
theorem related_init (capacity : A → Resource → Int) :
    Related (.init capacity) (.init capacity) where
  agents := rfl
  wires := ⟨rfl, rfl, (fun hConn => nomatch hConn), (fun hFile => nomatch hFile)⟩
  asks _ := ⟨⟨tidy_init.addrKeys, tidy_init.allocated, tidy_init.ids⟩, fun job hJob => by
    simp [ByteNet.init, Net.init, ClientState.init, ClientState.jobs] at hJob⟩
  grants _ r req hReq := by cases hReq

/-- A handler of a client side returns. -/
theorem Related.actClient (h : Related b net) {a : A} {r : ClientState × List Effect}
    (hAsks : Asks r.1) (hSound : ∀ e ∈ r.2, Sound (b.connections a) e) :
    Related { b with net := b.net.actClient route a r } (net.actClient route a r) where
  agents := by simp only [Net.actClient, h.agents]
  wires := h.wires.performAll route hSound
  asks x := by
    simp only [Net.actClient]
    split
    · exact hAsks
    · exact h.asks x
  grants x := by
    simp only [Net.actClient]
    split
    · rename_i hSame
      exact hSame ▸ h.grants x
    · exact h.grants x

/-- A handler of a server side returns. -/
theorem Related.actServer (h : Related b net) {a : A} {r : ServerState × List Effect}
    (hGrants : Grants r.1) (hSound : ∀ e ∈ r.2, Sound (b.connections a) e) :
    Related { b with net := b.net.actServer route a r } (net.actServer route a r) where
  agents := by simp only [Net.actServer, h.agents]
  wires := h.wires.performAll route hSound
  asks x := by
    simp only [Net.actServer]
    split
    · rename_i hSame
      exact hSame ▸ h.asks x
    · exact h.asks x
  grants x := by
    simp only [Net.actServer]
    split
    · exact hGrants
    · exact h.grants x

/-- A descriptor is closed; its buffer does not matter any more. -/
theorem Related.close (h : Related b net) {a : A} {fd : Int} {connections : A → Buffers}
    (hSame : ∀ x fd', ¬ (x = a ∧ fd' = fd) → connections x fd' = b.connections x fd') :
    Related ⟨{ b.net with wires := b.net.wires.perform route a (.close fd) }, connections⟩
      { net with wires := net.wires.perform route a (.close fd) } where
  agents := h.agents
  wires := (h.wires.close a fd).rebuffer fun x fd' _ hFile => hSame x fd' (files_close.mp hFile).2
  asks := h.asks
  grants := h.grants

theorem Related.erlang (h : Related b net) {a : A} {instruction : Text} {timer : Int}
    {nodes : Table nodeCallbacks} {dial : Dial} (hDial : SpareDial (b.connections a) dial) :
    Related { b with net := netStep route b.net (.erlang a instruction timer nodes dial) }
      (netStep route net (.erlang a instruction timer nodes dial)) := by
  simp only [netStep, h.agents]
  exact h.actClient route ((h.asks a).step _) (sound_erlang (h.asks a) hDial)

theorem Related.sweep (h : Related b net) {a : A} {now : Int} :
    Related { b with net := netStep route b.net (.sweep a now) }
      (netStep route net (.sweep a now)) := by
  simp only [netStep, h.agents]
  exact h.actClient route ((h.asks a).step _) (sound_timeOut _ (h.asks a))

theorem Related.writable (h : Related b net) {i : Nat} :
    Related { b with net := netStep route b.net (.writable i) }
      (netStep route net (.writable i)) := by
  cases hConn : b.net.wires.conns[i]? with
  | none =>
      have hNone : net.wires.conns[i]? = none := by
        rw [List.getElem?_eq_none_iff] at hConn ⊢
        rwa [h.wires.length]
      simp only [netStep, hConn, hNone]
      exact h
  | some c =>
      obtain ⟨c', hConn', hAgrees⟩ := h.wires.conns hConn
      have hClient : c'.client = c.client := agent_eq hAgrees.same .client
      have hFd : c'.clientFd = c.clientFd := Option.some.inj (fd_eq hAgrees.same .client)
      simp only [netStep, hConn, hConn', hClient, hFd, h.agents]
      have hDisarmed : Related
          { b with net := { b.net with
            wires := b.net.wires.modify i fun c => { c with armed := false } } }
          ⟨b.net.agents, net.wires.modify i fun c => { c with armed := false }⟩ :=
        ⟨rfl, h.wires.modify fun _ hAgrees => hAgrees.inert
          (congrArg (fun d : Conn A => { d with armed := false }) hAgrees.same)
          (fun side => by cases side <;> exact ⟨rfl, rfl, rfl, rfl⟩) rfl, h.asks, h.grants⟩
      have hAsks := (h.asks c.client).step (.sendRequest c.clientFd)
      exact hDisarmed.actClient (a := c.client) route hAsks
        (sound_sendRequest (h.asks c.client) c.clientFd)

/-- The server end of a connection gets a spare descriptor. -/
theorem Related.accept (h : Related b net) {i fd : Nat} {addr : Addr}
    (hEnabled : Enabled b.net (.accept i fd addr))
    (hSpare : ∀ c ∈ b.net.wires.conns[i]?, Spare (b.connections c.server) fd) :
    Related { b with net := netStep route b.net (.accept i fd addr) }
      (netStep route net (.accept i fd addr)) := by
  obtain ⟨c, hConn, hNone, -⟩ := hEnabled
  exact ⟨h.agents, h.wires.accept hConn hNone (hSpare c hConn), h.asks, h.grants⟩

/-! ## Turns -/

section

variable {b : ByteNet A} {net : Net A} {i : Nat} {c : Conn A} {side : Side} {fd : Int}
  {arrival : Arrival}

omit [DecidableEq A] in
/-- `read_until_newline` on a descriptor that has a buffer. -/
theorem read_called (b : ByteNet A) (c : Conn A) (side : Side) (hRange : 0 ≤ fd ∧ fd < maxFds)
    (arrival : Arrival) :
    Called arrival (b.connections (c.agent side) fd).pending (c.inbox side).flatten
        ((b.read c side fd arrival).1, ((b.read c side fd arrival).2.1 fd).pending,
          (b.read c side fd arrival).2.2) ∧
      (∀ fd', fd' ≠ fd → (b.read c side fd arrival).2.1 fd' = b.connections (c.agent side) fd') ∧
      ((b.read c side fd arrival).2.2 = .closed → arrival = .eof) := by
  have hIn : ¬ (fd < 0 ∨ maxFds ≤ fd) := by omega
  refine ⟨call_called hRange (.start (b.connections (c.agent side)) (c.inbox side).flatten) arrival,
    fun fd' hNe => ?_, fun hClosed => ?_⟩
  · simp only [ByteNet.read, readUntilNewline, if_neg hIn, Function.update_of_ne hNe]
  · have hPending := readLine_pending (recvFrom arrival) (c.inbox side).flatten
      (b.connections (c.agent side) fd)
    simp only [ByteNet.read, readUntilNewline, if_neg hIn] at hClosed
    rw [Prod.ext_iff, Prod.ext_iff] at hPending
    exact eof_of_closed (hPending.2.2.symm.trans hClosed)

/-- A line is put together, and handled. -/
theorem Related.line (h : Related b net) (hConn : b.net.wires.conns[i]? = some c)
    (hFd : c.fd side = some fd) (hOpen : b.net.wires.files (c.agent side) fd = some (i, side))
    {c' : Conn A} (hConn' : net.wires.conns[i]? = some c') (hSame : bare c' = bare c)
    {text rest : Text} {ls : List Text} (hInbox : c'.inbox side = text :: ls) {buffers : Buffers}
    (hBuffers : ∀ fd', fd' ≠ fd → buffers fd' = b.connections (c.agent side) fd')
    (hRest : Streaming c.broken ((buffers fd).pending ++ rest) ls) {now : Int} {dial : Dial}
    {names : Int → Option Addr} (hDial : SpareDial buffers dial) :
    Related
      { net := netStep route (b.left i side [text, rest]) (.line i side now dial names)
        connections := Function.update b.connections (c.agent side) buffers }
      (netStep route net (.line i side now dial names)) := by
  have hLeft : (b.left i side [text, rest]).wires.conns[i]? = some (setInbox side [text, rest] c) :=
    conns_modify_self hConn
  have hHead : (setInbox side [text, rest] c).inbox side = [text, rest] := by
    rw [inbox_setInbox, if_pos rfl]
  have hRead : ∀ (d : Conn A) (s : ServerState) (side' : Side),
      (d.read side s).fd side' = d.fd side' ∧ (d.read side s).agent side' = d.agent side' ∧
      (d.read side s).broken = d.broken ∧ (d.read side s).inbox side' =
        if side' = side then (d.inbox side').tail else d.inbox side' := by
    intro d s side'
    cases side <;> cases side' <;> exact ⟨rfl, rfl, rfl, rfl⟩
  -- both records after the line was read
  have hHeard : Related
      ⟨⟨b.net.agents, (b.left i side [text, rest]).wires.modify i
        (Conn.read side (b.net.agents (c.agent side)).server)⟩,
        Function.update b.connections (c.agent side) buffers⟩
      ⟨b.net.agents, net.wires.modify i
        (Conn.read side (b.net.agents (c.agent side)).server)⟩ := by
    refine ⟨rfl, ?_, h.asks, h.grants⟩
    have hTwice : (b.left i side [text, rest]).wires.modify i
        (Conn.read side (b.net.agents (c.agent side)).server) =
        b.net.wires.modify i (Conn.read side (b.net.agents (c.agent side)).server ∘
          setInbox side [text, rest]) := by
      simp only [ByteNet.left, Wires.modify, List.modify_modify_eq]
    simp only [hTwice]
    refine h.wires.receive hConn hConn' hFd hOpen hBuffers (bare_read hSame hInbox _) ?_
      (fun side' => ?_) (fun side' hSide => ?_) ?_
    · rw [Function.comp_apply, (hRead _ _ side).2.2.1]
      exact broken_eq (bare_setInbox side _ c)
    · obtain ⟨hFd', hAgent', -⟩ := hRead (setInbox side [text, rest] c)
        (b.net.agents (c.agent side)).server side'
      rw [Function.comp_apply, hFd', hAgent', fd_setInbox, agent_setInbox]
      exact ⟨rfl, rfl⟩
    · rw [Function.comp_apply, (hRead _ _ side').2.2.2, (hRead _ _ side').2.2.2, if_neg hSide,
        if_neg hSide, inbox_setInbox, if_neg hSide]
      exact ⟨rfl, rfl⟩
    · rw [Function.comp_apply, (hRead _ _ side).2.2.2, (hRead _ _ side).2.2.2, if_pos rfl,
        if_pos rfl, hHead, hInbox]
      simpa using hRest
  have hAsks := h.asks (c.agent side)
  have hServer : Grants (serverMessage (asPeers names) (b.net.agents (c.agent side)).server fd
      text).1 ∧ ∀ e ∈ (serverMessage (asPeers names) (b.net.agents (c.agent side)).server fd
      text).2, Sound buffers e := (h.grants (c.agent side)).message fd text
  have hServed := hHeard.actServer route (a := c.agent side) hServer.1
    (by simpa only [Function.update_self] using hServer.2)
  have hDone := hServed.actClient route (a := c.agent side) (hAsks.step (.line fd text now dial))
    (by simpa only [Function.update_self] using sound_line hAsks hDial)
  have hFd' : c'.fd side = some fd := (fd_eq hSame side).trans hFd
  have hFd'' : (setInbox side [text, rest] c).fd side = some fd := (fd_setInbox ..).trans hFd
  simp only [netStep, hLeft, hConn', hFd', hFd'', hHead, hInbox, agent_setInbox,
    agent_eq hSame, h.agents]
  exact hDone

/-- The end of the stream is read, and the connection is closed. -/
theorem Related.disconnect (h : Related b net) (hConn : b.net.wires.conns[i]? = some c)
    (hFd : c.fd side = some fd) {c' : Conn A} (hConn' : net.wires.conns[i]? = some c')
    (hSame : bare c' = bare c) (hEmpty : (c.inbox side).flatten = []) {buffers : Buffers}
    (hBuffers : ∀ fd', fd' ≠ fd → buffers fd' = b.connections (c.agent side) fd')
    {names : Int → Option Addr} :
    Related
      { net := netStep route (b.left i side [[]]) (.disconnect i side names)
        connections := Function.update b.connections (c.agent side) buffers }
      (netStep route net (.disconnect i side names)) := by
  obtain ⟨agents, wires⟩ := net
  obtain rfl : agents = b.net.agents := h.agents
  have hLeft : (b.left i side [[]]).wires.conns[i]? = some (setInbox side [[]] c) :=
    conns_modify_self hConn
  have hRead : Related ⟨b.left i side [[]], b.connections⟩ ⟨b.net.agents, wires⟩ := by
    have hId : wires = wires.modify i id := by simp [Wires.modify, List.modify_id]
    refine ⟨rfl, ?_, h.asks, h.grants⟩
    rw [hId]
    refine h.wires.modify fun hHere hAgrees => ?_
    obtain rfl := Option.some.inj (hConn.symm.trans hHere)
    refine ⟨hAgrees.same.trans (bare_setInbox side _ c).symm, fun side' hOpen => ?_⟩
    rw [fd_setInbox, agent_setInbox] at hOpen
    have hUnread : unread b.connections (setInbox side [[]] c) side' =
        unread b.connections c side' := by
      rw [unread, unread, pendingAt, pendingAt, fd_setInbox, agent_setInbox, inbox_setInbox]
      split
      · rename_i hSide
        rw [hSide, hEmpty]
        rfl
      · rfl
    rw [broken_eq (bare_setInbox side _ c), hUnread]
    exact hAgrees.streaming side' hOpen
  have hAsks := h.asks (c.agent side)
  have hServer : Grants (releaseClientByFd (asPeers names) (b.net.agents (c.agent side)).server
      fd).1 ∧ ∀ e ∈ (releaseClientByFd (asPeers names) (b.net.agents (c.agent side)).server fd).2,
      Sound (b.connections (c.agent side)) e := (h.grants (c.agent side)).releaseClient fd
  have hReleased := hRead.actServer route (a := c.agent side) hServer.1 hServer.2
  have hRejected := hReleased.actClient route (a := c.agent side) (hAsks.step (.disconnect fd))
    (sound_disconnect hAsks fd)
  have hFd' : c'.fd side = some fd := (fd_eq hSame side).trans hFd
  have hFd'' : (setInbox side [[]] c).fd side = some fd := (fd_setInbox ..).trans hFd
  simp only [netStep, hLeft, hConn', hFd', hFd'', agent_setInbox, agent_eq hSame]
  refine hRejected.close route fun a fd' hOther => ?_
  by_cases hAgent : a = c.agent side
  · subst hAgent
    rw [Function.update_self]
    exact hBuffers fd' fun hSameFd => hOther ⟨rfl, hSameFd⟩
  · rw [Function.update_of_ne hAgent]

/-- Some bytes are received, and no line is complete. -/
theorem Related.more (h : Related b net) (hConn : b.net.wires.conns[i]? = some c)
    (hFd : c.fd side = some fd) (hOpen : b.net.wires.files (c.agent side) fd = some (i, side))
    {c' : Conn A} (hConn' : net.wires.conns[i]? = some c') (hSame : bare c' = bare c)
    {rest : Text} {buffers : Buffers}
    (hBuffers : ∀ fd', fd' ≠ fd → buffers fd' = b.connections (c.agent side) fd')
    (hRest : Streaming c.broken ((buffers fd).pending ++ rest) (c'.inbox side)) :
    Related ⟨b.left i side [rest], Function.update b.connections (c.agent side) buffers⟩ net := by
  refine ⟨h.agents, ?_, h.asks, h.grants⟩
  have hId : net.wires = net.wires.modify i id := by simp [Wires.modify, List.modify_id]
  rw [hId]
  refine h.wires.receive hConn hConn' hFd hOpen hBuffers
    (hSame.trans (bare_setInbox side _ c).symm) (broken_eq (bare_setInbox side _ c))
    (fun side' => ⟨fd_setInbox .., agent_setInbox ..⟩) (fun side' hSide => ⟨?_, rfl⟩) ?_
  · rw [inbox_setInbox, if_neg hSide]
  · rw [inbox_setInbox, if_pos rfl]
    simpa using hRest

omit [DecidableEq A] in
/-- A call on another descriptor leaves a free one spare. -/
theorem spareDial_read {dial : Dial} {buffers : Buffers}
    (hDial : SpareDial (b.connections (c.agent side)) dial)
    (hFree : b.net.wires.Free (c.agent side) dial)
    (hOpen : b.net.wires.files (c.agent side) fd = some (i, side))
    (hBuffers : ∀ fd', fd' ≠ fd → buffers fd' = b.connections (c.agent side) fd') :
    SpareDial buffers dial := by
  have hOther : ∀ d : Nat, b.net.wires.files (c.agent side) d = none →
      Spare (b.connections (c.agent side)) d → Spare buffers d := by
    intro d hNone hSpare
    have hNe : (d : Int) ≠ fd := by
      rintro rfl
      rw [hNone] at hOpen
      cases hOpen
    exact ⟨hSpare.1, hSpare.2.1, by rw [hBuffers d hNe]; exact hSpare.2.2⟩
  cases dial with
  | noSocket => trivial
  | connectFails d => trivial
  | epollFails d => exact hOther d hFree hDial
  | connected d => exact hOther d hFree hDial

/-- **One turn** delivers the next line, or nothing, or the end. -/
theorem Related.turn (h : Related b net) {now : Int} {dial : Dial} {names : Int → Option Addr}
    (hPossible : Possible b (.turn i side arrival now dial names))
    (hFresh : Fresh b (.turn i side arrival now dial names)) :
    Meets (netStep route) Enabled net (lineEvents b (.turn i side arrival now dial names)) ∧
      Related (streamStep route b (.turn i side arrival now dial names))
        (run (netStep route) net (lineEvents b (.turn i side arrival now dial names))) := by
  obtain ⟨c, hConn, ⟨fd, hFd, hOpen⟩, hFree, hNamed, hEof⟩ := hPossible
  have hDial := hFresh c hConn
  obtain ⟨c', hConn', hAgrees⟩ := h.wires.conns hConn
  have hIsOpen : net.wires.IsOpen i c' side := h.wires.isOpen hAgrees.same ⟨fd, hFd, hOpen⟩
  have hEnd : endOf b i side = some (c, fd) := by
    rw [endOf, hConn, Option.bind_some, hFd, Option.map_some]
  obtain ⟨hCalled, hBuffers, hLast⟩ := read_called b c side (h.wires.fits hOpen) arrival
  have hStreaming := hAgrees.streaming side fun fd' hFd' => by
    obtain rfl := Option.some.inj (hFd.symm.trans hFd')
    exact hOpen
  rw [unread, pendingAt, hFd, Option.map_some, Option.getD_some] at hStreaming
  simp only [lineEvents, streamStep, hEnd, ByteNet.turn]
  rcases turned hStreaming hCalled with ⟨text, rest, hLine, hInbox, hRest⟩ | ⟨hMore, hRest⟩ |
    ⟨hClosed, hNil, hEmpty, hNothing⟩
  · have hLine : (b.read c side fd arrival).2.2 = .line text := hLine
    simp only [hLine]
    refine ⟨⟨⟨c', hConn', hIsOpen, ?_, ?_, ?_⟩, trivial⟩, ?_⟩
    · rw [hInbox]
      exact List.cons_ne_nil _ _
    · rw [agent_eq hAgrees.same]
      exact h.wires.free hFree
    · rw [agent_eq hAgrees.same]
      exact h.wires.named hNamed
    · exact h.line route hConn hFd hOpen hConn' hAgrees.same hInbox hBuffers hRest
        (spareDial_read hDial hFree hOpen hBuffers)
  · have hMore : (b.read c side fd arrival).2.2 = .more := hMore
    simp only [hMore]
    exact ⟨trivial, h.more hConn hFd hOpen hConn' hAgrees.same hBuffers hRest⟩
  · have hClosed : (b.read c side fd arrival).2.2 = .closed := hClosed
    have hNothing : (b.read c side fd arrival).1 = [] := hNothing
    simp only [hClosed]
    refine ⟨⟨⟨c', hConn', hIsOpen, hNil, ?_, ?_⟩, trivial⟩, ?_⟩
    · rw [broken_eq hAgrees.same]
      refine (hEof (hLast hClosed)).imp id fun hGone => ?_
      have hGone := h.wires.isClosed hAgrees.same hGone
      cases side <;> exact hGone
    · rw [agent_eq hAgrees.same]
      exact h.wires.named hNamed
    · rw [hNothing]
      refine h.disconnect route hConn hFd hConn' hAgrees.same hEmpty fun fd' hNe => ?_
      unfold clearConnectionBuffer
      split
      · rw [Function.update_of_ne hNe, hBuffers fd' hNe]
      · exact hBuffers fd' hNe

end

/-- A connection fails: the lines of which the newline still arrives are kept. -/
theorem Related.fail (h : Related b net) {i keepServer keepClient : Nat} {c : Conn A}
    (hConn : b.net.wires.conns[i]? = some c) :
    Related
      { b with net := { b.net with wires := b.net.wires.modify i (cut keepServer keepClient) } }
      (netStep route net
        (.fail i ((unread b.connections (cut keepServer keepClient c) .server).count '\n')
          ((unread b.connections (cut keepServer keepClient c) .client).count '\n'))) := by
  refine ⟨h.agents, h.wires.modify fun hHere hAgrees => ?_, h.asks, h.grants⟩
  obtain rfl := Option.some.inj (hConn.symm.trans hHere)
  refine ⟨congrArg (fun d : Conn A => { d with broken := true }) hAgrees.same, fun side hOpen => ?_⟩
  have hStreaming : Streaming c.broken (unread b.connections c side) _ :=
    hAgrees.streaming side (by cases side <;> exact hOpen)
  have hCut : ∀ keep, (unread b.connections c side).take
      ((pendingAt b.connections c side).length + keep) =
      pendingAt b.connections c side ++ ((c.inbox side).flatten.take keep) := by
    intro keep
    rw [unread, List.take_append, List.take_of_length_le (by omega), Nat.add_sub_cancel_left]
  cases side with
  | client =>
      have hUnread : unread b.connections (cut keepServer keepClient c) .client =
          pendingAt b.connections c .client ++ (c.inbox .client).flatten.take keepClient := by
        simp [unread, pendingAt, cut, Conn.inbox, Conn.fd, Conn.agent]
      rw [hUnread, ← hCut]
      exact hStreaming.cut _
  | server =>
      have hUnread : unread b.connections (cut keepServer keepClient c) .server =
          pendingAt b.connections c .server ++ (c.inbox .server).flatten.take keepServer := by
        simp [unread, pendingAt, cut, Conn.inbox, Conn.fd, Conn.agent]
      rw [hUnread, ← hCut]
      exact hStreaming.cut _

/-- **One step** of `Streams` is none or one of `Network`. -/
theorem Related.step (h : Related b net) {e : StreamEvent A} (hPossible : Possible b e)
    (hFresh : Fresh b e) :
    Meets (netStep route) Enabled net (lineEvents b e) ∧
      Related (streamStep route b e) (run (netStep route) net (lineEvents b e)) := by
  cases e with
  | erlang a instruction timer nodes dial =>
      exact ⟨⟨h.wires.free hPossible, trivial⟩, h.erlang route hFresh⟩
  | sweep a now => exact ⟨⟨trivial, trivial⟩, h.sweep route⟩
  | accept i fd addr =>
      obtain ⟨c, hConn, hNone, hFree, hPort, hUnused⟩ := id hPossible
      obtain ⟨c', hConn', hAgrees⟩ := h.wires.conns hConn
      refine ⟨⟨⟨c', hConn', ?_, ?_, hPort, ?_⟩, trivial⟩, h.accept route hPossible hFresh⟩
      · rw [serverEnd_eq hAgrees.same, hNone]
      · rw [h.wires.files, server_eq hAgrees.same, hFree]
      · rw [server_eq hAgrees.same]
        exact h.wires.unused hUnused
  | writable i =>
      obtain ⟨c, hConn, hArmed, hOpen⟩ := hPossible
      obtain ⟨c', hConn', hAgrees⟩ := h.wires.conns hConn
      have hArmed' := congrArg (fun d : Conn A => d.armed) hAgrees.same
      exact ⟨⟨⟨c', hConn', hArmed'.trans hArmed, h.wires.isOpen hAgrees.same hOpen⟩, trivial⟩,
        h.writable route⟩
  | turn i side arrival now dial names => exact h.turn route hPossible hFresh
  | fail i keepServer keepClient =>
      obtain ⟨c, hConn⟩ : ∃ c, b.net.wires.conns[i]? = some c :=
        ⟨_, List.getElem?_eq_getElem hPossible⟩
      simp only [lineEvents, hConn]
      refine ⟨⟨?_, trivial⟩, h.fail route hConn⟩
      show i < net.wires.conns.length
      rw [h.wires.length]
      exact hPossible

/-- **Chunks do not matter.**  In every run in which a new connection gets a descriptor with an
empty buffer, the agents go through the states they go through when lines are delivered whole, and
the lines that are delivered are those of the streams. -/
theorem chunks_do_not_matter {capacity : A → Resource → Int} {es : List (StreamEvent A)}
    (hPossible : Meets (streamStep route) Possible (.init capacity) es)
    (hFresh : Meets (streamStep route) Fresh (.init capacity) es) :
    Meets (netStep route) Enabled (.init capacity)
        (scripts (streamStep route) lineEvents (.init capacity) es) ∧
      (run (netStep route) (.init capacity)
          (scripts (streamStep route) lineEvents (.init capacity) es)).agents =
        (run (streamStep route) (.init capacity) es).net.agents ∧
      ∀ {i : Nat} {c : Conn A}, (run (streamStep route) (.init capacity) es).net.wires.conns[i]? =
          some c → ∀ side, (run (streamStep route) (.init capacity) es).net.wires.IsOpen i c side →
        ∃ c', (run (netStep route) (.init capacity)
            (scripts (streamStep route) lineEvents (.init capacity) es)).wires.conns[i]? = some c' ∧
          Streaming c.broken
            (unread (run (streamStep route) (.init capacity) es).connections c side)
            (c'.inbox side) := by
  have hRun : Meets (netStep route) Enabled (.init capacity)
      (scripts (streamStep route) lineEvents (.init capacity) es) ∧
        Related (run (streamStep route) (.init capacity) es) (run (netStep route) (.init capacity)
          (scripts (streamStep route) lineEvents (.init capacity) es)) :=
    run_stuttering Related (fun b net e h hOk => h.step route hOk.1 hOk.2) (related_init capacity)
      (hPossible.and hFresh)
  obtain ⟨hMeets, hRelated⟩ := hRun
  refine ⟨hMeets, hRelated.agents, fun hConn side hOpen => ?_⟩
  obtain ⟨c', hConn', hAgrees⟩ := hRelated.wires.conns hConn
  obtain ⟨fd, hFd, hFile⟩ := hOpen
  refine ⟨c', hConn', hAgrees.streaming side fun fd' hFd' => ?_⟩
  obtain rfl := Option.some.inj (hFd.symm.trans hFd')
  exact hFile

end

/-- Job 1001 of one agent asks the other for a cpu.  The RESERVE arrives in two pieces and the
GRANTED in three. -/
def pieces : List (StreamEvent Bool) :=
  [.erlang false "JOB_REQUEST 1001 @10.0.0.1:cpu:1\n".toList 0 (tablahashCreate _) (.connected 5),
    .writable 0, .accept 0 6 (7, 1), .turn 0 .server (.upTo 3) 0 .noSocket fun _ => some (7, 1),
    .turn 0 .server .again 0 .noSocket fun _ => some (7, 1),
    .turn 0 .server (.upTo 100) 0 .noSocket fun _ => some (7, 1),
    .turn 0 .client (.upTo 2) 0 .noSocket fun _ => none,
    .turn 0 .client (.upTo 2) 0 .noSocket fun _ => none,
    .turn 0 .client (.upTo 100) 9 .noSocket fun _ => none]

theorem chunks_do_not_matter_pieces :
    (scripts (streamStep fun _ _ => true) lineEvents (.init fun _ _ => 4) pieces).length =
        5 ∧
      ((run (netStep fun _ _ => true) (.init fun _ _ => 4)
        (scripts (streamStep fun _ _ => true) lineEvents (.init fun _ _ => 4) pieces)).agents
          false).told = [(.granted, "1001".toList)] := by
  have hPossible : Meets (streamStep fun _ _ => true) Possible (.init fun _ _ => 4)
      pieces := by decide +kernel
  have hFresh : Meets (streamStep fun _ _ => true) Fresh (.init fun _ _ => 4) pieces := by
    decide +kernel
  have hAgents := (chunks_do_not_matter _ hPossible hFresh).2.1
  refine ⟨by decide +kernel, ?_⟩
  rw [hAgents]
  decide +kernel

end ResourceAgent.Ports.StreamRefinement
