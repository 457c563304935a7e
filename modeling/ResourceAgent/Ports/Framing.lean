import ResourceAgent.Ports.Wire
import ResourceAgent.Verified.CBuffer
import ResourceAgent.Verified.Lines
import ResourceAgent.Verified.Runs

/-!
# Framing: `read_until_newline`

`agent/read_instructions.c` keeps one `Connection` for every descriptor: a
buffer of `BUFFER_LEN` bytes and the number of bytes in use.  A call of
`read_until_newline` returns a complete line if there is one, reads from the
socket at most once, and leaves the rest in the buffer for the next call.

The buffer is modelled with all its bytes, those left over from earlier lines
and earlier connections included.  A `Connection` carries what every function
of the file keeps: the counter stays inside the array, and the bytes in use are
followed by a NUL, so that `strchr` never sees a byte that is not in use.
`readUntilNewline_pending` reduces a call to what it does to the bytes in use.

`recv` is a parameter: a state of the kernel and a function that answers a
request for a number of bytes.
-/

namespace ResourceAgent.Ports.Framing

open ResourceAgent.Ports.Wire
open ResourceAgent.Verified.CText
open ResourceAgent.Verified.CBuffer
open ResourceAgent.Verified.Lines
open ResourceAgent.Verified.Runs

/-! ## The buffers -/

/-- `Connection`: the buffer of a descriptor and the bytes in use. -/
structure Connection where
  buffer : Text
  accumulatedBytes : Nat
  size : buffer.length = bufferLen
  bounded : accumulatedBytes < bufferLen
  terminated : 0 < accumulatedBytes → buffer[accumulatedBytes]? = some '\x00'

namespace Connection

/-- The bytes received and not yet returned. -/
def pending (c : Connection) : Text := c.buffer.take c.accumulatedBytes

theorem length_pending (c : Connection) : c.pending.length = c.accumulatedBytes := by
  have hSize := c.size
  have hBound := c.bounded
  rw [pending, List.length_take]
  omega

/-- An entry of `connections` as the program starts with it. -/
def fresh : Connection where
  buffer := List.replicate bufferLen '\x00'
  accumulatedBytes := 0
  size := List.length_replicate
  bounded := by decide
  terminated h := absurd h (by decide)

/-- `clear_connection_buffer`: only the counter is reset. -/
def clear (c : Connection) : Connection where
  buffer := c.buffer
  accumulatedBytes := 0
  size := c.size
  bounded := by decide
  terminated h := absurd h (by decide)

/-- `*acc = 0; storage[0] = '\0';` when the buffer is full. -/
def reset (c : Connection) : Connection where
  buffer := memcpy c.buffer 0 ['\x00']
  accumulatedBytes := 0
  size := by
    have hSize := c.size
    rw [length_memcpy, hSize]
    rw [hSize]
    decide
  bounded := by decide
  terminated h := absurd h (by decide)

/-- `BUFFER_LEN - *acc - 1`. -/
def space (c : Connection) : Nat := bufferLen - c.accumulatedBytes - 1

/-- `memcpy(&storage[*acc], temp, n); *acc += n; storage[*acc] = '\0';`, where
at most `space` bytes were asked for. -/
def append (c : Connection) (temp : Text) : Connection where
  buffer :=
    memcpy (memcpy c.buffer c.accumulatedBytes (temp.take c.space))
      (c.accumulatedBytes + (temp.take c.space).length) ['\x00']
  accumulatedBytes := c.accumulatedBytes + (temp.take c.space).length
  size := by
    have hSize := c.size
    have hBound := c.bounded
    have hTemp : (temp.take c.space).length ≤ bufferLen - c.accumulatedBytes - 1 :=
      List.length_take_le _ _
    have hCopy : (memcpy c.buffer c.accumulatedBytes (temp.take c.space)).length = bufferLen := by
      rw [length_memcpy, hSize]
      omega
    rw [length_memcpy, hCopy]
    rw [hCopy, List.length_singleton]
    omega
  bounded := by
    have hBound := c.bounded
    have hTemp : (temp.take c.space).length ≤ bufferLen - c.accumulatedBytes - 1 :=
      List.length_take_le _ _
    omega
  terminated _ := by
    have hSize := c.size
    have hBound := c.bounded
    have hTemp : (temp.take c.space).length ≤ bufferLen - c.accumulatedBytes - 1 :=
      List.length_take_le _ _
    refine getElem?_memcpy_pos ?_
    rw [length_memcpy, hSize]
    · omega
    · omega

theorem rest_lt (c : Connection) (i : Nat) : c.accumulatedBytes - (i + 1) < bufferLen := by
  have hBound := c.bounded
  omega

/-- Moving the rest to the front keeps the size of the array. -/
theorem length_moved (c : Connection) (i : Nat) :
    (memcpy c.buffer 0 ((c.buffer.drop (i + 1)).take (c.accumulatedBytes - (i + 1)))).length =
      bufferLen := by
  have hSize := c.size
  have hBound := c.bounded
  have hBlock := List.length_take_le (c.accumulatedBytes - (i + 1)) (c.buffer.drop (i + 1))
  rw [length_memcpy, hSize]
  omega

/-- The complete line that ends at index `i` is returned and the bytes behind
it are moved to the front: `memcpy`, `memmove` and `memset` of the last part of
`read_until_newline`. -/
def takeLine (c : Connection) (i : Nat) : Connection × Text :=
  let remaining := c.accumulatedBytes - (i + 1)
  let moved := memcpy c.buffer 0 ((c.buffer.drop (i + 1)).take remaining)
  have hMoved : moved.length = bufferLen := c.length_moved i
  ({ buffer := memset moved remaining '\x00' (bufferLen - remaining)
     accumulatedBytes := remaining
     size := hMoved ▸ length_memset_rest (hMoved ▸ c.rest_lt i)
     bounded := c.rest_lt i
     terminated _ := hMoved ▸ getElem?_memset_rest (hMoved ▸ c.rest_lt i) },
    c.buffer.take (i + 1))

end Connection

/-! ## `read_until_newline` -/

/-- What `recv` gives: at least one byte, the end of the stream, `EAGAIN`, or
another error. -/
inductive Recv where
  | data (bytes : Text)
  | eof
  | again
  | error
  deriving DecidableEq, Repr

/-- The result of `read_until_newline`: 1 with a line, 0, or -1. -/
inductive Reading where
  | line (text : Text)
  | more
  | closed
  deriving DecidableEq, Repr

/-- The body of `read_until_newline`, under the lock of the connection. -/
def readLine {S : Type} (recv : Nat → S → Recv × S) (s : S) (c : Connection) :
    S × Connection × Reading :=
  match (if 0 < c.accumulatedBytes then strchr '\n' c.buffer else none) with
  | some i => (s, (c.takeLine i).1, .line (c.takeLine i).2)
  | none =>
      let c := if c.space = 0 then c.reset else c
      match recv c.space s with
      | (.eof, s) => (s, c, .closed)
      | (.again, s) => (s, c, .more)
      | (.error, s) => (s, c, .closed)
      | (.data bytes, s) =>
          let c := c.append bytes
          match strchr '\n' c.buffer with
          | some i => (s, (c.takeLine i).1, .line (c.takeLine i).2)
          | none => (s, c, .more)

/-- `MAX_FDS`. -/
def maxFds : Int := 1024

/-- The array `connections`, indexed by descriptor. -/
abbrev Buffers := Int → Connection

/-- `read_until_newline(fd, output_line)`. -/
def readUntilNewline {S : Type} (recv : Nat → S → Recv × S) (s : S) (connections : Buffers)
    (fd : Int) : S × Buffers × Reading :=
  if fd < 0 ∨ maxFds ≤ fd then (s, connections, .closed)
  else
    let r := readLine recv s (connections fd)
    (r.1, Function.update connections fd r.2.1, r.2.2)

/-- `clear_connection_buffer(fd)`. -/
def clearConnectionBuffer (connections : Buffers) (fd : Int) : Buffers :=
  if 0 ≤ fd ∧ fd < maxFds then Function.update connections fd (connections fd).clear
  else connections

/-! ## What a call does to the bytes in use -/

namespace Connection

@[simp] theorem pending_clear (c : Connection) : c.clear.pending = [] := rfl

@[simp] theorem pending_reset (c : Connection) : c.reset.pending = [] := rfl

theorem pending_append (c : Connection) (temp : Text) :
    (c.append temp).pending = c.pending ++ temp.take c.space := by
  have hSize := c.size
  have hBound := c.bounded
  have hTemp : (temp.take c.space).length ≤ bufferLen - c.accumulatedBytes - 1 :=
    List.length_take_le _ _
  have hFit : c.accumulatedBytes + (temp.take c.space).length ≤ c.buffer.length := by omega
  show (memcpy (memcpy c.buffer c.accumulatedBytes (temp.take c.space))
      (c.accumulatedBytes + (temp.take c.space).length) ['\x00']).take
      (c.accumulatedBytes + (temp.take c.space).length) = c.buffer.take _ ++ _
  rw [take_memcpy_of_le (le_refl _) (by rw [length_memcpy hFit]; exact hFit), take_memcpy]
  omega

/-- The NUL behind the bytes in use stops `strchr`. -/
private theorem strchr_of_terminated (c : Connection)
    (h : c.buffer[c.accumulatedBytes]? = some '\x00') :
    strchr '\n' c.buffer = strchr '\n' c.pending := by
  obtain ⟨hLt, hNul⟩ := List.getElem?_eq_some_iff.mp h
  have hSplit : c.buffer = c.pending ++ '\x00' :: c.buffer.drop (c.accumulatedBytes + 1) := by
    rw [pending, ← hNul, ← List.drop_eq_getElem_cons, List.take_append_drop]
  rw [hSplit, strchr_terminated (by decide)]

/-- The look before the read finds a line among the bytes in use. -/
theorem strchr_pending (c : Connection) :
    (if 0 < c.accumulatedBytes then strchr '\n' c.buffer else none) = strchr '\n' c.pending := by
  by_cases hPos : 0 < c.accumulatedBytes
  · rw [if_pos hPos]
    exact strchr_of_terminated c (c.terminated hPos)
  · have hZero : c.accumulatedBytes = 0 := by omega
    rw [if_neg hPos, pending, hZero, List.take_zero]
    rfl

theorem strchr_append (c : Connection) (temp : Text) :
    strchr '\n' (c.append temp).buffer = strchr '\n' (c.append temp).pending := by
  refine strchr_of_terminated _ (getElem?_memcpy_pos ?_)
  have hSize := c.size
  have hBound := c.bounded
  have hTemp : (temp.take c.space).length ≤ bufferLen - c.accumulatedBytes - 1 :=
    List.length_take_le _ _
  rw [length_memcpy, hSize]
  · omega
  · omega

/-- The index of a newline among the bytes in use. -/
theorem lt_of_strchr {c : Connection} {i : Nat} (h : strchr '\n' c.pending = some i) :
    i + 1 ≤ c.accumulatedBytes := by
  obtain ⟨body, rest, hSplit, -, rfl⟩ := strchr_eq_some h
  have hLen := c.length_pending
  rw [hSplit, List.length_append, List.length_cons] at hLen
  omega

theorem takeLine_line {c : Connection} {i : Nat} (h : strchr '\n' c.pending = some i) :
    (c.takeLine i).2 = c.pending.take (i + 1) := by
  show c.buffer.take (i + 1) = (c.buffer.take c.accumulatedBytes).take (i + 1)
  rw [List.take_take, Nat.min_eq_left (lt_of_strchr h)]

theorem pending_takeLine {c : Connection} {i : Nat} (h : strchr '\n' c.pending = some i) :
    (c.takeLine i).1.pending = c.pending.drop (i + 1) := by
  have hSize := c.size
  have hBound := c.bounded
  have hLt := lt_of_strchr h
  have hBlock : ((c.buffer.drop (i + 1)).take (c.accumulatedBytes - (i + 1))).length =
      c.accumulatedBytes - (i + 1) := by
    rw [List.length_take, List.length_drop]
    omega
  have hMoved : (memcpy c.buffer 0
      ((c.buffer.drop (i + 1)).take (c.accumulatedBytes - (i + 1)))).length = bufferLen := by
    rw [length_memcpy, hSize]
    omega
  have hFront : (memcpy c.buffer 0 ((c.buffer.drop (i + 1)).take
      (c.accumulatedBytes - (i + 1)))).take (c.accumulatedBytes - (i + 1)) =
      (c.buffer.drop (i + 1)).take (c.accumulatedBytes - (i + 1)) := by
    have hTake := @take_memcpy c.buffer ((c.buffer.drop (i + 1)).take
      (c.accumulatedBytes - (i + 1))) 0 (Nat.zero_le _)
    rw [hBlock, Nat.zero_add, List.take_zero, List.nil_append] at hTake
    exact hTake
  show (memset _ (c.accumulatedBytes - (i + 1)) '\x00' _).take (c.accumulatedBytes - (i + 1)) =
    (c.buffer.take c.accumulatedBytes).drop (i + 1)
  rw [memset, take_memcpy_of_le (le_refl _) (by omega), hFront, List.drop_take]

end Connection

/-- `read_until_newline` on the bytes in use alone. -/
def readPending {S : Type} (recv : Nat → S → Recv × S) (s : S) (p : Text) : S × Text × Reading :=
  match strchr '\n' p with
  | some i => (s, p.drop (i + 1), .line (p.take (i + 1)))
  | none =>
      let p := if p.length = 1023 then [] else p
      match recv (1023 - p.length) s with
      | (.eof, s) => (s, p, .closed)
      | (.again, s) => (s, p, .more)
      | (.error, s) => (s, p, .closed)
      | (.data bytes, s) =>
          let p := p ++ bytes.take (1023 - p.length)
          match strchr '\n' p with
          | some i => (s, p.drop (i + 1), .line (p.take (i + 1)))
          | none => (s, p, .more)

/-- **The bytes left over in the array do not matter.** -/
theorem readLine_pending {S : Type} (recv : Nat → S → Recv × S) (s : S) (c : Connection) :
    ((readLine recv s c).1, (readLine recv s c).2.1.pending, (readLine recv s c).2.2) =
      readPending recv s c.pending := by
  rw [readLine, readPending, c.strchr_pending]
  cases hFound : strchr '\n' c.pending with
  | some i =>
      simp only [Connection.takeLine_line hFound, Connection.pending_takeLine hFound]
  | none =>
      have hSpace : ∀ c : Connection, c.space = 1023 - c.pending.length := by
        intro c
        rw [c.length_pending, Connection.space, bufferLen]
        omega
      have hFull : c.space = 0 ↔ c.pending.length = 1023 := by
        have hBound := c.bounded
        rw [c.length_pending, Connection.space, bufferLen]
        rw [bufferLen] at hBound
        omega
      -- the connection the bytes are read into
      obtain ⟨d, hd⟩ : ∃ d, (if c.space = 0 then c.reset else c) = d := ⟨_, rfl⟩
      have hPending : (if c.pending.length = 1023 then [] else c.pending) = d.pending := by
        rw [← hd]
        by_cases h : c.space = 0
        · rw [if_pos h, if_pos (hFull.mp h), Connection.pending_reset]
        · rw [if_neg h, if_neg (mt hFull.mpr h)]
      simp only [hd, hPending, ← hSpace d]
      cases hRecv : recv d.space s with
      | mk result s' =>
          cases result with
          | eof => rfl
          | again => rfl
          | error => rfl
          | data bytes =>
              simp only [← d.pending_append, d.strchr_append]
              cases hLine : strchr '\n' (d.append bytes).pending with
              | none => rfl
              | some i =>
                  simp only [Connection.takeLine_line hLine, Connection.pending_takeLine hLine]

/-! ## Calls on one connection -/

/-- What the kernel does when it is asked for bytes: it hands over some of those
that have arrived (`n + 1`, or fewer if fewer are there or asked for), has none at the
moment, or reports the end of the stream. -/
inductive Arrival where
  | upTo (n : Nat)
  | again
  | eof
  deriving DecidableEq, Repr

/-- `recv` on a stream of which `incoming` is still to come.  The end is not
reported before the last byte. -/
def recvFrom (a : Arrival) (space : Nat) (incoming : Text) : Recv × Text :=
  match a, incoming with
  | .again, _ => (.again, incoming)
  | .eof, [] => (.eof, [])
  | .eof, _ :: _ => (.again, incoming)
  | .upTo _, [] => (.again, [])
  | .upTo n, _ :: _ =>
      (.data (incoming.take (min (n + 1) space)), incoming.drop (min (n + 1) space))

/-- A connection between calls: the buffers, the part of the stream not yet
received, the lines returned so far and the result of the last call. -/
structure Channel where
  connections : Buffers
  incoming : Text
  returned : List Text
  last : Reading

/-- The line a result carries. -/
def Reading.lines : Reading → List Text
  | .line text => [text]
  | _ => []

/-- One call of `read_until_newline(fd, ..)`. -/
def call (fd : Int) (ch : Channel) (a : Arrival) : Channel :=
  let r := readUntilNewline (recvFrom a) ch.incoming ch.connections fd
  ⟨r.2.1, r.1, ch.returned ++ r.2.2.lines, r.2.2⟩

/-- Before the first call. -/
def Channel.start (connections : Buffers) (stream : Text) : Channel :=
  ⟨connections, stream, [], .more⟩

/-- Where a stream is: some lines were returned, some bytes are in the buffer and
some are still to come.  Bytes were dropped only if no line follows. -/
structure Framed (stream : Text) (returned : List Text) (pending incoming : Text) : Prop where
  isLine : ∀ line ∈ returned, IsLine '\n' line
  split : ∃ lost, stream = returned.flatten ++ (lost ++ (pending ++ incoming)) ∧
    '\n' ∉ lost ∧ (lost ≠ [] → '\n' ∉ pending ++ incoming)

section

variable {stream pending incoming : Text} {returned : List Text}

theorem Framed.returned_prefix (h : Framed stream returned pending incoming) :
    returned <+: lines '\n' stream := by
  obtain ⟨lost, hSplit, -, -⟩ := h.split
  rw [hSplit, lines_flatten_append h.isLine]
  exact List.prefix_append _ _

/-- Nothing is left to be returned. -/
theorem Framed.returned_eq (h : Framed stream returned pending incoming)
    (hPending : '\n' ∉ pending) (hIncoming : incoming = []) : returned = lines '\n' stream := by
  obtain ⟨lost, hSplit, hLost, -⟩ := h.split
  rw [hSplit, lines_flatten_append h.isLine, lines_of_not_mem, List.append_nil]
  simp [hLost, hPending, hIncoming]

/-- The first line in the buffer is returned. -/
theorem Framed.takeLine (h : Framed stream returned pending incoming) {i : Nat}
    (hFound : strchr '\n' pending = some i) :
    Framed stream (returned ++ [pending.take (i + 1)]) (pending.drop (i + 1)) incoming := by
  obtain ⟨body, rest, hPending, hBody, rfl⟩ := strchr_eq_some hFound
  have hLine : pending.take (body.length + 1) = body ++ ['\n'] := by
    rw [hPending, List.take_append, List.take_of_length_le (Nat.le_succ _)]
    simp
  have hRest : pending.drop (body.length + 1) = rest := by
    rw [hPending, List.drop_append, List.drop_eq_nil_of_le (Nat.le_succ _)]
    simp
  rw [hLine, hRest]
  obtain ⟨lost, hSplit, -, hLost⟩ := h.split
  have hNone : lost = [] := by
    by_contra hSome
    exact hLost hSome (by simp [hPending])
  refine ⟨?_, [], ?_, by simp, fun h => absurd rfl h⟩
  · intro line hMem
    rcases List.mem_append.mp hMem with hMem | hMem
    · exact h.isLine line hMem
    · rw [List.mem_singleton.mp hMem]
      exact ⟨body, hBody, rfl⟩
  · rw [hSplit, hNone, hPending]
    simp

/-- A full buffer without a line in it is dropped: no line follows, because it
would be longer than the buffer. -/
theorem Framed.reset (h : Framed stream returned pending incoming)
    (hLines : ∀ line ∈ lines '\n' stream, line.length ≤ 1023)
    (hPending : '\n' ∉ pending) (hFull : pending.length = 1023) :
    Framed stream returned [] incoming := by
  obtain ⟨lost, hSplit, hNone, hLost⟩ := h.split
  have hIncoming : '\n' ∉ incoming := by
    intro hMem
    obtain ⟨line, rest, ⟨body, hBody, rfl⟩, rfl⟩ := exists_line hMem
    have hEmpty : lost = [] := by
      by_contra hSome
      exact hLost hSome (by simp)
    have hFirst : lines '\n' stream =
        returned ++ ((pending ++ body) ++ ['\n']) :: lines '\n' rest := by
      rw [hSplit, hEmpty, lines_flatten_append h.isLine, ← lines_cons]
      · simp
      · simp [hPending, hBody]
    have hLong := hLines ((pending ++ body) ++ ['\n']) (by simp [hFirst])
    simp only [List.length_append, List.length_singleton] at hLong
    omega
  refine ⟨h.isLine, lost ++ pending, ?_, ?_, fun _ => ?_⟩
  · rw [hSplit]
    simp
  · simp [hNone, hPending]
  · simpa using hIncoming

/-- Some bytes arrive. -/
theorem Framed.receive (h : Framed stream returned pending incoming) (n : Nat) :
    Framed stream returned (pending ++ incoming.take n) (incoming.drop n) := by
  obtain ⟨lost, hSplit, hNone, hLost⟩ := h.split
  refine ⟨h.isLine, lost, ?_, hNone, ?_⟩
  · rw [hSplit, List.append_assoc pending, List.take_append_drop]
  · rw [List.append_assoc, List.take_append_drop]
    exact hLost

end

/-- What one call can do to the bytes in use and the stream to come. -/
inductive Called (a : Arrival) (pending incoming : Text) : Text × Text × Reading → Prop where
  /-- a complete line was in the buffer: nothing is read -/
  | buffered {i : Nat} (hFound : strchr '\n' pending = some i) :
      Called a pending incoming (incoming, pending.drop (i + 1), .line (pending.take (i + 1)))
  | nothing {q : Text} (hNone : strchr '\n' pending = none)
      (hRoom : q = if pending.length = 1023 then [] else pending)
      (hEmpty : ∀ n, a = .upTo n → incoming = []) :
      Called a pending incoming (incoming, q, .more)
  | ended {q : Text} (hNone : strchr '\n' pending = none)
      (hRoom : q = if pending.length = 1023 then [] else pending) (hEnd : incoming = []) :
      Called a pending incoming ([], q, .closed)
  /-- some bytes arrive, and no line is complete yet -/
  | partly {q : Text} {n : Nat} (hNone : strchr '\n' pending = none)
      (hRoom : q = if pending.length = 1023 then [] else pending)
      (hSome : incoming ≠ []) (hn : 0 < n) (hStill : strchr '\n' (q ++ incoming.take n) = none) :
      Called a pending incoming (incoming.drop n, q ++ incoming.take n, .more)
  | completed {q : Text} {n i : Nat} (hNone : strchr '\n' pending = none)
      (hRoom : q = if pending.length = 1023 then [] else pending)
      (hSome : incoming ≠ []) (hn : 0 < n)
      (hFound : strchr '\n' (q ++ incoming.take n) = some i) :
      Called a pending incoming (incoming.drop n, (q ++ incoming.take n).drop (i + 1),
        .line ((q ++ incoming.take n).take (i + 1)))

theorem readPending_called (a : Arrival) {pending incoming : Text} (hLen : pending.length ≤ 1023) :
    Called a pending incoming (readPending (recvFrom a) incoming pending) := by
  rw [readPending]
  cases hFound : strchr '\n' pending with
  | some i => exact .buffered hFound
  | none =>
      obtain ⟨q, hq⟩ : ∃ q, q = if pending.length = 1023 then [] else pending := ⟨_, rfl⟩
      have hSpace : 0 < 1023 - q.length := by
        rw [hq]
        by_cases hFull : pending.length = 1023
        · rw [if_pos hFull]
          decide
        · rw [if_neg hFull]
          omega
      simp only [← hq]
      cases a with
      | again =>
          simp only [recvFrom]
          exact .nothing hFound hq (by simp)
      | eof =>
          cases incoming with
          | nil => exact .ended hFound hq rfl
          | cons c rest => exact .nothing hFound hq (by simp)
      | upTo n =>
          cases incoming with
          | nil => exact .nothing hFound hq (fun _ _ => rfl)
          | cons c rest =>
              have hTake :
                  ((c :: rest).take (min (n + 1) (1023 - q.length))).take (1023 - q.length) =
                  (c :: rest).take (min (n + 1) (1023 - q.length)) := by
                rw [List.take_take, Nat.min_eq_right (Nat.min_le_right _ _)]
              simp only [recvFrom, hTake]
              cases hLine : strchr '\n' (q ++ (c :: rest).take (min (n + 1) (1023 - q.length))) with
              | none => exact .partly hFound hq (by simp) (by omega) hLine
              | some i => exact .completed hFound hq (by simp) (by omega) hLine

/-- The bytes in use of a connection. -/
def Channel.pending (ch : Channel) (fd : Int) : Text := (ch.connections fd).pending

/-- A call on a descriptor that has a buffer. -/
theorem call_called {fd : Int} (hFd : 0 ≤ fd ∧ fd < maxFds) (ch : Channel) (a : Arrival) :
    Called a (ch.pending fd) ch.incoming
      ((call fd ch a).incoming, (call fd ch a).pending fd, (call fd ch a).last) := by
  have hLen : (ch.pending fd).length ≤ 1023 := by
    have hBound := (ch.connections fd).bounded
    rw [Channel.pending, Connection.length_pending]
    exact Nat.le_of_lt_succ hBound
  have hIn : ¬ (fd < 0 ∨ maxFds ≤ fd) := by omega
  have hCalled : Called a (ch.pending fd) ch.incoming _ := readPending_called a hLen
  rw [Channel.pending, ← readLine_pending] at hCalled
  simpa only [call, Channel.pending, readUntilNewline, if_neg hIn, Function.update_self]
    using hCalled

section

variable {a : Arrival} {stream pending incoming : Text} {returned : List Text}
  {r : Text × Text × Reading}

/-- Room is made only in a buffer that holds no line. -/
private theorem Framed.room (h : Framed stream returned pending incoming)
    (hLines : ∀ line ∈ lines '\n' stream, line.length ≤ 1023) (hNone : '\n' ∉ pending) :
    Framed stream returned (if pending.length = 1023 then [] else pending) incoming := by
  by_cases hFull : pending.length = 1023
  · rw [if_pos hFull]
    exact h.reset hLines hNone hFull
  · rw [if_neg hFull]
    exact h

private theorem Framed.nul (h : Framed stream returned pending incoming) (hNul : '\x00' ∉ stream) :
    '\x00' ∉ pending := by
  obtain ⟨lost, hSplit, -, -⟩ := h.split
  intro hMem
  exact hNul (by simp [hSplit, hMem])

/-- **A call keeps the frame**, and a call that returns no line leaves none in
the buffer. -/
theorem Called.framed (h : Called a pending incoming r)
    (hFramed : Framed stream returned pending incoming) (hNul : '\x00' ∉ stream)
    (hLines : ∀ line ∈ lines '\n' stream, line.length ≤ 1023) :
    Framed stream (returned ++ r.2.2.lines) r.2.1 r.1 ∧
      ((∀ text, r.2.2 ≠ .line text) → '\n' ∉ r.2.1) ∧ (r.2.2 = .closed → r.1 = []) := by
  have hRoomy : ∀ q, strchr '\n' pending = none →
      (q = if pending.length = 1023 then [] else pending) →
      Framed stream returned q incoming ∧ '\n' ∉ q := by
    intro q hNone hRoom
    have hMiss := strchr_eq_none (hFramed.nul hNul) hNone
    rw [hRoom]
    refine ⟨hFramed.room hLines hMiss, ?_⟩
    by_cases hFull : pending.length = 1023
    · simp [hFull]
    · rwa [if_neg hFull]
  cases h with
  | buffered hFound => exact ⟨hFramed.takeLine hFound, fun h => absurd rfl (h _), by simp⟩
  | nothing hNone hRoom _ =>
      have hq := hRoomy _ hNone hRoom
      exact ⟨by simpa [Reading.lines] using hq.1, fun _ => hq.2, by simp⟩
  | ended hNone hRoom hEnd =>
      have hq := hRoomy _ hNone hRoom
      rw [hEnd] at hq
      exact ⟨by simpa [Reading.lines] using hq.1, fun _ => hq.2, fun _ => rfl⟩
  | @partly q n hNone hRoom _ _ hStill =>
      have hReceived := (hRoomy q hNone hRoom).1.receive n
      refine ⟨by simpa [Reading.lines] using hReceived, fun _ => ?_, by simp⟩
      exact strchr_eq_none (hReceived.nul hNul) hStill
  | @completed q n i hNone hRoom _ _ hFound =>
      have hReceived := (hRoomy q hNone hRoom).1.receive n
      exact ⟨hReceived.takeLine hFound, fun h => absurd rfl (h _), by simp⟩

/-- How far the reader is from having returned everything. -/
def distance (pending incoming : Text) : Nat := 2 * incoming.length + pending.length

private theorem length_drop_lt {s : Text} {i : Nat} (h : strchr '\n' s = some i) :
    (s.drop (i + 1)).length < s.length := by
  obtain ⟨body, rest, rfl, -, rfl⟩ := strchr_eq_some h
  simp only [List.length_drop, List.length_append, List.length_cons]
  omega

/-- Each call for which bytes are there comes nearer to the end. -/
theorem Called.distance_le (h : Called a pending incoming r) :
    distance r.2.1 r.1 ≤ distance pending incoming ∧
      (∀ n, a = .upTo n → distance r.2.1 r.1 < distance pending incoming ∨
        (r.1 = [] ∧ ∀ text, r.2.2 ≠ .line text)) := by
  have hRoomy : ∀ q : Text, (q = if pending.length = 1023 then [] else pending) →
      q.length ≤ pending.length := by
    intro q hRoom
    rw [hRoom]
    split
    · exact Nat.zero_le _
    · exact le_refl _
  have hReceive : ∀ (q : Text) (n : Nat), q.length ≤ pending.length → incoming ≠ [] → 0 < n →
      2 * (incoming.drop n).length + (q ++ incoming.take n).length <
        2 * incoming.length + pending.length := by
    intro q n hq hSome hn
    have hPos := List.length_pos_iff.mpr hSome
    simp only [List.length_drop, List.length_append, List.length_take]
    omega
  cases h with
  | buffered hFound =>
      have hLt := length_drop_lt hFound
      simp only [distance]
      exact ⟨by omega, fun _ _ => .inl (by omega)⟩
  | nothing _ hRoom hEmpty =>
      have hq := hRoomy _ hRoom
      simp only [distance]
      exact ⟨by omega, fun n hn => .inr ⟨hEmpty n hn, by simp⟩⟩
  | ended _ hRoom hEnd =>
      have hq := hRoomy _ hRoom
      simp only [distance, hEnd]
      exact ⟨by omega, fun _ _ => .inr ⟨trivial, by simp⟩⟩
  | @partly q n _ hRoom hSome hn _ =>
      have hLt := hReceive q n (hRoomy q hRoom) hSome hn
      simp only [distance]
      exact ⟨by omega, fun _ _ => .inl (by omega)⟩
  | @completed q n i _ hRoom hSome hn hFound =>
      have hLt := hReceive q n (hRoomy q hRoom) hSome hn
      have hDrop := length_drop_lt hFound
      simp only [distance]
      exact ⟨by omega, fun _ _ => .inl (by omega)⟩

end

/-! ## Any number of calls -/

/-- What holds of a connection between calls. -/
structure Sound (stream : Text) (fd : Int) (ch : Channel) : Prop where
  framed : Framed stream ch.returned (ch.pending fd) ch.incoming
  quiet : (∀ text, ch.last ≠ .line text) → '\n' ∉ ch.pending fd
  ended : ch.last = .closed → ch.incoming = []

theorem Sound.call {stream : Text} {fd : Int} {ch : Channel} (h : Sound stream fd ch)
    (hFd : 0 ≤ fd ∧ fd < maxFds) (hNul : '\x00' ∉ stream)
    (hLines : ∀ line ∈ lines '\n' stream, line.length ≤ 1023) (a : Arrival) :
    Sound stream fd (call fd ch a) := by
  have hStep := (call_called hFd ch a).framed h.framed hNul hLines
  exact ⟨hStep.1, hStep.2.1, hStep.2.2⟩

theorem Sound.start {connections : Buffers} {fd : Int}
    (hEmpty : (connections fd).accumulatedBytes = 0) (stream : Text) :
    Sound stream fd (Channel.start connections stream) := by
  have hPending : (Channel.start connections stream).pending fd = [] := by
    rw [Channel.pending, Connection.pending]
    show ((connections fd).buffer.take (connections fd).accumulatedBytes) = []
    rw [hEmpty, List.take_zero]
  refine ⟨⟨by simp [Channel.start], [], ?_, by simp, fun h => absurd rfl h⟩, fun _ => ?_, ?_⟩
  · rw [hPending]
    rfl
  · simp [hPending]
  · simp [Channel.start]

/-- The whole stream has been received and no line is left in the buffer. -/
def Channel.Finished (fd : Int) (ch : Channel) : Prop :=
  ch.incoming = [] ∧ '\n' ∉ ch.pending fd

/-- The bytes of a stream arrive: calls that are given bytes run out of
them. -/
theorem finished_run {stream : Text} {fd : Int} (hFd : 0 ≤ fd ∧ fd < maxFds)
    (hNul : '\x00' ∉ stream) (hLines : ∀ line ∈ lines '\n' stream, line.length ≤ 1023)
    (arrivals : List Arrival) : ∀ ch, Sound stream fd ch →
      (ch.Finished fd ∨ distance (ch.pending fd) ch.incoming <
        (arrivals.filter fun a => a matches .upTo _).length) →
      (run (call fd) ch arrivals).Finished fd := by
  induction arrivals with
  | nil =>
      intro ch _ h
      rcases h with h | h
      · exact h
      · simp at h
  | cons a rest ih =>
      intro ch hSound h
      have hNext := hSound.call hFd hNul hLines a
      have hCalled := call_called hFd ch a
      have hLess := hCalled.distance_le
      refine ih (call fd ch a) hNext ?_
      rcases h with h | h
      · -- nothing is left: a call reads nothing and returns nothing
        left
        have hDone : ∀ r, Called a (ch.pending fd) ch.incoming r → r.1 = [] ∧ '\n' ∉ r.2.1 := by
          intro r hr
          have hMiss := (hr.framed hSound.framed hNul hLines).2.1
          cases hr with
          | buffered hFound =>
              obtain ⟨body, tail, hSplit, -, -⟩ := strchr_eq_some hFound
              exact absurd (by simp [hSplit]) h.2
          | nothing _ _ _ => exact ⟨h.1, hMiss (by simp)⟩
          | ended _ _ _ => exact ⟨rfl, hMiss (by simp)⟩
          | partly _ _ hSome _ _ => exact absurd h.1 hSome
          | completed _ _ hSome _ _ => exact absurd h.1 hSome
        exact hDone _ hCalled
      · cases a with
        | again =>
            right
            exact lt_of_le_of_lt hLess.1 (by simpa using h)
        | eof =>
            right
            exact lt_of_le_of_lt hLess.1 (by simpa using h)
        | upTo n =>
            have hCount : distance (ch.pending fd) ch.incoming <
                (rest.filter fun a => a matches .upTo _).length + 1 := by simpa using h
            rcases hLess.2 n rfl with hLt | ⟨hEmpty, hLast⟩
            · right
              exact Nat.lt_of_lt_of_le hLt (Nat.le_of_lt_succ hCount)
            · exact .inl ⟨hEmpty, hNext.quiet hLast⟩

/-- **Framing is independent of chunking.**  Take any stream without NULs whose
lines fit the buffer, a descriptor whose buffer is empty (whatever its bytes
were before), and any calls with any arrivals between them.  The lines returned
are the first lines of the stream; they are all of them as soon as the stream is
exhausted and a call returns none, when a call returns -1, and at the latest
when bytes were handed over more than twice as often as the stream is long. -/
theorem framing_independent_of_chunking {fd : Int} (hFd : 0 ≤ fd ∧ fd < maxFds)
    {connections : Buffers} (hEmpty : (connections fd).accumulatedBytes = 0) {stream : Text}
    (hNul : '\x00' ∉ stream) (hLines : ∀ line ∈ lines '\n' stream, line.length ≤ 1023)
    (arrivals : List Arrival) :
    let ch := run (call fd) (Channel.start connections stream) arrivals
    ch.returned <+: lines '\n' stream ∧
      (ch.incoming = [] → (∀ text, ch.last ≠ .line text) → ch.returned = lines '\n' stream) ∧
      (ch.last = .closed → ch.returned = lines '\n' stream) ∧
      (2 * stream.length < (arrivals.filter fun a => a matches .upTo _).length →
        ch.returned = lines '\n' stream) := by
  have hStart := Sound.start hEmpty stream
  have hSound : Sound stream fd (run (call fd) (Channel.start connections stream) arrivals) :=
    run_invariant_always (Sound stream fd) (fun ch a h => h.call hFd hNul hLines a) hStart arrivals
  refine ⟨hSound.framed.returned_prefix, fun hIn hLast => ?_, fun hClosed => ?_, fun hMany => ?_⟩
  · exact hSound.framed.returned_eq (hSound.quiet hLast) hIn
  · have hQuiet := hSound.quiet (by simp [hClosed])
    exact hSound.framed.returned_eq hQuiet (hSound.ended hClosed)
  · have hFar : distance ((Channel.start connections stream).pending fd)
        (Channel.start connections stream).incoming = 2 * stream.length := by
      rw [distance, Channel.pending, Connection.length_pending]
      show 2 * stream.length + (connections fd).accumulatedBytes = _
      omega
    have hDone := finished_run hFd hNul hLines arrivals _ hStart (.inr (by rw [hFar]; exact hMany))
    exact hSound.framed.returned_eq hDone.2 hDone.1

/-- Two lines and the start of a third, four bytes at a time. -/
theorem framing_independent_of_chunking_twoLines :
    (run (call 7) (Channel.start (fun _ => .fresh) "GRANTED 7\nDENIED 8\nGRA".toList)
      (List.replicate 50 (.upTo 3))).returned =
      ["GRANTED 7\n".toList, "DENIED 8\n".toList] :=
  (framing_independent_of_chunking (by decide) rfl (by decide) (by decide) _).2.2.2 (by decide)

end ResourceAgent.Ports.Framing
