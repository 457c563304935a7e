import ResourceAgent.Ports.Framing

/-!
# The line buffers stay in bounds

`Ports.Framing` builds into `Connection` that the counter is inside the array and that a NUL
follows the bytes in use.  Here `read_until_newline` and `clear_connection_buffer` are written
on a `RawConnection` of which nothing is known: the counter is any `int`, and every access to
`storage`, to `temp` and to `output_line` is checked.  A call that would read or write outside
an array, or let `strchr` run off its end, has no result.

`readLineRaw_raw` says that from a well-formed connection there always is one, that it is what
`Ports.Framing` computes, and which numbers the call handled on the way.  `line_buffer_bounds`
is the result for every sequence of calls and every stream.
-/

namespace ResourceAgent.Ports.BufferBounds

open ResourceAgent.Ports.Wire
open ResourceAgent.Ports.Framing
open ResourceAgent.Verified.CText
open ResourceAgent.Verified.CBuffer
open ResourceAgent.Verified.Runs

/-! ## The kernel -/

/-- The kernel hands over bytes, says that there are none, or reports an error. -/
inductive Answer where
  | arrival (a : Arrival)
  | error
  deriving DecidableEq, Repr

/-- `recv` on a stream of which `incoming` is still to come. -/
def recv (a : Answer) (len : Nat) (incoming : Text) : Recv × Text :=
  match a with
  | .arrival a => recvFrom a len incoming
  | .error => (.error, incoming)

/-- The bytes an answer brings. -/
def bytes : Recv → Text
  | .data bytes => bytes
  | _ => []

/-- The `int` that `recv` returns. -/
def count : Recv → Int
  | .data bytes => bytes.length
  | .eof => 0
  | .again => -1
  | .error => -1

/-- An `int` where a `size_t` is expected. -/
def asSize (n : Int) : Nat := (n % 2 ^ 64).toNat

/-! ## `read_until_newline` -/

/-- `Connection`, with nothing known of it. -/
structure RawConnection where
  buffer : Text
  accumulatedBytes : Int
  deriving DecidableEq, Repr

/-- The arrays on the stack, with whatever is left in them: `output_line` of the caller, and
`temp`. -/
structure Stack where
  outputLine : Vector Char bufferLen
  temp : Vector Char 1024

/-- What a call did: the `space` it asked `recv` for, what `recv` answered, the `remaining` it
computed, and its result. -/
structure Trace where
  asked : Option Int
  answer : Option Recv
  remaining : Option Int
  result : Reading
  deriving DecidableEq, Repr

/-- The look before the read. -/
def findBuffered (c : RawConnection) : Option (Option Nat) :=
  if 0 < c.accumulatedBytes then findIn '\n' c.buffer else some none

/-- `space`, and the reset when there is none. -/
def makeRoom (c : RawConnection) : Option (RawConnection × Int) :=
  let space := bufferLen - c.accumulatedBytes - 1
  if space ≤ 0 then do
    let storage ← writeAt c.buffer 0 ['\x00']
    some (⟨storage, 0⟩, bufferLen - 1)
  else some (c, space)

/-- `memcpy(&storage[*acc], temp, n); *acc += n; storage[*acc] = '\0';`, where `recv` has put
`bytes` into `temp`. -/
def appendRaw (temp : Text) (c : RawConnection) (received : Text) (n : Int) :
    Option RawConnection := do
  let temp ← writeAt temp 0 received
  let block ← readAt temp 0 n
  let storage ← writeAt c.buffer c.accumulatedBytes block
  let acc := c.accumulatedBytes + n
  let storage ← writeAt storage acc ['\x00']
  some ⟨storage, acc⟩

/-- `if (remaining > 0) memmove(storage, &storage[line_len], remaining);` -/
def moveFront (storage : Text) (lineLen remaining : Int) : Option Text :=
  if 0 < remaining then do
    let block ← readAt storage lineLen remaining
    writeAt storage 0 block
  else some storage

/-- A complete line, with its newline at index `nl`: the connection, `output_line` and
`remaining`. -/
def takeLineRaw (outputLine : Text) (c : RawConnection) (nl : Nat) :
    Option (RawConnection × Text × Int) := do
  let lineLen : Int := nl + 1
  let line ← readAt c.buffer 0 lineLen
  let outputLine ← writeAt outputLine 0 line
  let outputLine ← writeAt outputLine lineLen ['\x00']
  let remaining := c.accumulatedBytes - lineLen
  let storage ← moveFront c.buffer lineLen remaining
  let storage ← setAt storage remaining '\x00' (bufferLen - remaining)
  some (⟨storage, remaining⟩, outputLine, remaining)

/-- The end of a call: a line that was found is returned. -/
def finish (stack : Stack) (c : RawConnection) (nl : Option Nat) (asked : Option Int)
    (answer : Option Recv) : Option (RawConnection × Trace) :=
  match nl with
  | none => some (c, ⟨asked, answer, none, .more⟩)
  | some nl => do
      let (c, outputLine, remaining) ← takeLineRaw stack.outputLine.toList c nl
      some (c, ⟨asked, answer, some remaining, .line (cString outputLine)⟩)

/-- The body of `read_until_newline`, under the lock of the connection. -/
def readLineRaw (stack : Stack) (a : Answer) (incoming : Text) (c : RawConnection) :
    Option (RawConnection × Text × Trace) := do
  let nl ← findBuffered c
  match nl with
  | some nl =>
      let (c, trace) ← finish stack c (some nl) none none
      some (c, incoming, trace)
  | none =>
      let (c, space) ← makeRoom c
      let (answer, incoming) := recv a (asSize space) incoming
      let n := count answer
      if n = 0 then some (c, incoming, ⟨some space, some answer, none, .closed⟩)
      else if n < 0 then
        some (c, incoming,
          ⟨some space, some answer, none, if answer = .again then .more else .closed⟩)
      else
        let c ← appendRaw stack.temp.toList c (bytes answer) n
        let nl ← findIn '\n' c.buffer
        let (c, trace) ← finish stack c nl (some space) (some answer)
        some (c, incoming, trace)

/-! ## A well-formed connection -/

/-- The memory of a connection. -/
def raw (c : Connection) : RawConnection := ⟨c.buffer, c.accumulatedBytes⟩

/-- The numbers a call handles are in range. -/
structure Sound (t : Trace) : Prop where
  asked : ∀ space ∈ t.asked, 1 ≤ space ∧ space ≤ 1023
  eof : ∀ answer ∈ t.answer, count answer = 0 → answer = .eof
  remaining : ∀ n ∈ t.remaining, 0 ≤ n
  line : ∀ text, t.result = .line text → text.length ≤ 1023

/-- What `recv` can answer when it is asked for something. -/
theorem recv_cases (a : Answer) {len : Nat} (hLen : 0 < len) (incoming : Text) :
    (recv a len incoming).1 = .eof ∨ (recv a len incoming).1 = .again ∨
      (recv a len incoming).1 = .error ∨
      ∃ received, (recv a len incoming).1 = .data received ∧ received ≠ [] ∧
        received.length ≤ len := by
  cases a with
  | error => exact .inr (.inr (.inl rfl))
  | arrival a =>
      cases a with
      | again => exact .inr (.inl rfl)
      | eof =>
          cases incoming with
          | nil => exact .inl rfl
          | cons c rest => exact .inr (.inl rfl)
      | upTo n =>
          cases incoming with
          | nil => exact .inr (.inl rfl)
          | cons c rest =>
              refine .inr (.inr (.inr ⟨_, rfl, ?_, ?_⟩))
              · obtain ⟨m, hm⟩ : ∃ m, min (n + 1) len = m + 1 :=
                  ⟨min (n + 1) len - 1, by omega⟩
                rw [hm]
                exact List.cons_ne_nil _ _
              · rw [List.length_take]
                omega

theorem asSize_natCast {n : Nat} (h : n < 2 ^ 64) : asSize n = n := by
  rw [asSize]
  omega

theorem findIn_terminated {c : Connection} (h : 0 < c.accumulatedBytes) :
    findIn '\n' c.buffer = some (strchr '\n' c.buffer) :=
  findIn_eq (List.mem_of_getElem? (c.terminated h))

theorem findBuffered_raw (c : Connection) :
    findBuffered (raw c) = some (strchr '\n' c.pending) := by
  rw [← c.strchr_pending, findBuffered, raw]
  by_cases hPos : 0 < c.accumulatedBytes
  · rw [if_pos hPos, if_pos (Int.natCast_pos.mpr hPos)]
    exact findIn_terminated hPos
  · rw [if_neg hPos, if_neg (mt Int.natCast_pos.mp hPos)]

theorem makeRoom_raw (c : Connection) :
    ∃ d, (if c.space = 0 then c.reset else c) = d ∧
      makeRoom (raw c) = some (raw d, (d.space : Int)) ∧ 1 ≤ d.space ∧ d.space ≤ 1023 := by
  have hSize := c.size
  have hBound := c.bounded
  have hSpace : (bufferLen : Int) - (c.accumulatedBytes : Int) - 1 = (c.space : Int) := by
    rw [Connection.space]
    omega
  refine ⟨_, rfl, ?_⟩
  simp only [makeRoom, raw, hSpace]
  by_cases hFull : c.space = 0
  · rw [if_pos hFull, if_pos (by omega),
      writeAt_zero (by rw [hSize]; decide)]
    have hAll : c.reset.space = 1023 := rfl
    exact ⟨rfl, by omega, by omega⟩
  · rw [if_neg hFull, if_neg (by omega)]
    refine ⟨rfl, by omega, ?_⟩
    rw [Connection.space, bufferLen]
    omega

theorem appendRaw_raw {temp : Text} (hTemp : temp.length = 1024) (c : Connection)
    {received : Text} (hFit : received.length ≤ c.space) :
    appendRaw temp (raw c) received received.length = some (raw (c.append received)) := by
  have hSize := c.size
  have hBound := c.bounded
  have hSpace : c.space = bufferLen - c.accumulatedBytes - 1 := rfl
  have hLen : bufferLen = 1024 := rfl
  have hRead : readAt (memcpy temp 0 received) 0 received.length = some received := by
    have hTake := @take_memcpy temp received 0 (Nat.zero_le _)
    rw [Nat.zero_add, List.take_zero, List.nil_append] at hTake
    rw [readAt_zero, hTake]
    rw [length_memcpy] <;> omega
  have hCopy : (memcpy c.buffer c.accumulatedBytes received).length = bufferLen := by
    rw [length_memcpy, hSize]
    omega
  have hEnd : (c.accumulatedBytes : Int) + received.length =
      ((c.accumulatedBytes + received.length : Nat) : Int) := by omega
  have hAll : received.take c.space = received := List.take_of_length_le hFit
  simp only [appendRaw, raw, hEnd, Connection.append, hAll, Option.bind_eq_bind]
  rw [writeAt_zero (by omega), Option.bind_some, hRead, Option.bind_some,
    writeAt_eq (by omega), Option.bind_some,
    writeAt_eq (by rw [hCopy, List.length_singleton]; omega), Option.bind_some]

theorem takeLineRaw_raw {outputLine : Text} (hLine : outputLine.length = bufferLen)
    (c : Connection) {nl : Nat} (h : strchr '\n' c.pending = some nl) :
    ∃ outputLine', takeLineRaw outputLine (raw c) nl =
        some (raw (c.takeLine nl).1, outputLine', ((c.accumulatedBytes - (nl + 1) : Nat) : Int)) ∧
      cString outputLine' = (c.takeLine nl).2 := by
  have hSize := c.size
  have hBound := c.bounded
  have hLt := Connection.lt_of_strchr h
  have hLineLen : (nl : Int) + 1 = ((nl + 1 : Nat) : Int) := rfl
  have hLength : (c.buffer.take (nl + 1)).length = nl + 1 := by
    rw [List.length_take]
    omega
  -- what is left behind the line, and the move of it to the front
  generalize hRemaining : c.accumulatedBytes - (nl + 1) = remaining
  have hRest : (c.accumulatedBytes : Int) - ((nl + 1 : Nat) : Int) = (remaining : Int) := by omega
  have hClear : (bufferLen : Int) - (remaining : Int) = ((bufferLen - remaining : Nat) : Int) := by
    omega
  have hBlock : ((c.buffer.drop (nl + 1)).take remaining).length = remaining := by
    rw [List.length_take, List.length_drop]
    omega
  have hMove : moveFront c.buffer ((nl + 1 : Nat) : Int) remaining =
      some (memcpy c.buffer 0 ((c.buffer.drop (nl + 1)).take remaining)) := by
    rw [moveFront]
    by_cases hPos : 0 < (remaining : Int)
    · rw [if_pos hPos, readAt_eq (by omega), Option.bind_eq_bind, Option.bind_some,
        writeAt_zero (by omega)]
    · have hNone : remaining = 0 := by omega
      rw [if_neg hPos, hNone, List.take_zero, memcpy_nil]
  have hMoved : (memcpy c.buffer 0 ((c.buffer.drop (nl + 1)).take remaining)).length =
      bufferLen := by
    rw [length_memcpy] <;> omega
  have hCopied : (memcpy outputLine 0 (c.buffer.take (nl + 1))).length = bufferLen := by
    rw [length_memcpy] <;> omega
  refine ⟨memcpy (memcpy outputLine 0 (c.buffer.take (nl + 1))) (nl + 1) ['\x00'], ?_, ?_⟩
  · simp only [takeLineRaw, raw, hLineLen, Option.bind_eq_bind]
    rw [readAt_zero (by omega), Option.bind_some, writeAt_zero (by omega), Option.bind_some,
      writeAt_eq (by rw [hCopied, List.length_singleton]; omega), Option.bind_some, hRest, hMove,
      Option.bind_some, hClear, setAt_eq (by omega), Option.bind_some]
    simp only [Connection.takeLine, hRemaining]
  · have hNul : '\x00' ∉ c.buffer.take (nl + 1) := by
      have hPending := nul_not_mem_of_strchr (by decide) h
      rw [← Connection.takeLine_line h] at hPending
      exact hPending
    have hHolds := @holds_copy outputLine _ (by omega) hNul
    rw [hLength] at hHolds
    exact hHolds.cString_eq

theorem finish_some (stack : Stack) (c : Connection) {nl : Nat}
    (h : strchr '\n' c.pending = some nl) (asked : Option Int) (answer : Option Recv) :
    finish stack (raw c) (some nl) asked answer = some (raw (c.takeLine nl).1,
      ⟨asked, answer, some ((c.accumulatedBytes - (nl + 1) : Nat) : Int),
        .line (c.takeLine nl).2⟩) := by
  obtain ⟨outputLine, hTake, hLine⟩ :=
    takeLineRaw_raw (show stack.outputLine.toList.length = bufferLen by simp) c h
  simp only [finish, hTake, hLine, Option.bind_eq_bind, Option.bind_some]

theorem length_takeLine_le {c : Connection} {nl : Nat} (h : strchr '\n' c.pending = some nl) :
    (c.takeLine nl).2.length ≤ 1023 := by
  have hBound := c.bounded
  have hLen := c.length_pending
  rw [bufferLen] at hBound
  rw [Connection.takeLine_line h, List.length_take]
  omega

/-- The numbers of a call that returns a line. -/
theorem sound_line {c : Connection} {nl : Nat} (h : strchr '\n' c.pending = some nl)
    {asked : Option Int} {answer : Option Recv}
    (hAsked : ∀ space ∈ asked, 1 ≤ space ∧ space ≤ 1023)
    (hEof : ∀ r ∈ answer, count r = 0 → r = .eof) :
    Sound ⟨asked, answer, some ((c.accumulatedBytes - (nl + 1) : Nat) : Int),
      .line (c.takeLine nl).2⟩ where
  asked := hAsked
  eof := hEof
  remaining n hn := by
    cases hn
    exact Int.natCast_nonneg _
  line text hText := by
    cases hText
    exact length_takeLine_le h

/-- The numbers of a call that returns none. -/
theorem sound_silent {asked : Option Int} {answer : Option Recv} {result : Reading}
    (hAsked : ∀ space ∈ asked, 1 ≤ space ∧ space ≤ 1023)
    (hEof : ∀ r ∈ answer, count r = 0 → r = .eof) (hSilent : ∀ text, result ≠ .line text) :
    Sound ⟨asked, answer, none, result⟩ where
  asked := hAsked
  eof := hEof
  remaining n hn := by cases hn
  line text hText := absurd hText (hSilent text)

/-- **Every access of a call is inside its array**, and the call does to the connection what
the model of well-formed connections says. -/
theorem readLineRaw_raw (stack : Stack) (a : Answer) (incoming : Text) (c : Connection) :
    ∃ c' incoming' trace, readLineRaw stack a incoming (raw c) = some (raw c', incoming', trace) ∧
      readLine (recv a) incoming c = (incoming', c', trace.result) ∧ Sound trace := by
  rw [readLineRaw, readLine, findBuffered_raw, c.strchr_pending, Option.bind_eq_bind,
    Option.bind_some]
  cases hFound : strchr '\n' c.pending with
  | some nl =>
      refine ⟨_, _, ⟨none, none, _, _⟩, ?_, rfl, sound_line hFound (by simp) (by simp)⟩
      simp only [finish_some stack c hFound, Option.bind_eq_bind, Option.bind_some]
  | none =>
      obtain ⟨d, hd, hRoom, hPos, hLe⟩ := makeRoom_raw c
      have hAsked : ∀ space ∈ some (d.space : Int), 1 ≤ space ∧ space ≤ 1023 := by
        intro space hSpace
        cases hSpace
        omega
      simp only [hd, hRoom, Option.bind_eq_bind, Option.bind_some,
        asSize_natCast (show d.space < 2 ^ 64 by omega)]
      obtain ⟨⟨answer, rest⟩, hRecv⟩ : ∃ r, recv a d.space incoming = r := ⟨_, rfl⟩
      have hCases := recv_cases a hPos incoming
      rw [hRecv] at hCases ⊢
      simp only at hCases ⊢
      rcases hCases with rfl | rfl | rfl | ⟨received, rfl, hSome, hFit⟩
      · exact ⟨d, rest, _, rfl, rfl, sound_silent hAsked (by simp) (by simp)⟩
      · exact ⟨d, rest, _, rfl, rfl, sound_silent hAsked (by simp [count]) (by simp)⟩
      · exact ⟨d, rest, _, rfl, rfl, sound_silent hAsked (by simp [count]) (by simp)⟩
      · have hLen := List.length_pos_iff.mpr hSome
        have hEof : ∀ r ∈ some (Recv.data received), count r = 0 → r = .eof := by
          intro r hr hZero
          cases hr
          rw [count] at hZero
          omega
        have hUsed : 0 < (d.append received).accumulatedBytes := by
          show 0 < d.accumulatedBytes + (received.take d.space).length
          rw [List.take_of_length_le hFit]
          omega
        rw [if_neg (by rw [count]; omega), if_neg (by rw [count]; omega)]
        have hTemp : stack.temp.toList.length = 1024 := by simp
        have hFind : findIn '\n' (raw (d.append received)).buffer =
            some (strchr '\n' (d.append received).pending) := by
          rw [← d.strchr_append]
          exact findIn_terminated hUsed
        simp only [count, bytes, appendRaw_raw hTemp d hFit, hFind, Option.bind_some,
          d.strchr_append]
        cases hLine : strchr '\n' (d.append received).pending with
        | none => exact ⟨_, rest, _, rfl, rfl, sound_silent hAsked hEof (by simp)⟩
        | some nl =>
            refine ⟨_, _, _, ?_, rfl, sound_line hLine hAsked hEof⟩
            simp only [finish_some stack _ hLine, Option.bind_some]

/-! ## Calls on one descriptor -/

/-- `read_until_newline(fd, output_line)`. -/
def readUntilNewlineRaw (fd : Int) (stack : Stack) (a : Answer) (incoming : Text)
    (c : RawConnection) : Option (RawConnection × Text × Trace) :=
  if fd < 0 ∨ maxFds ≤ fd then some (c, incoming, ⟨none, none, none, .closed⟩)
  else readLineRaw stack a incoming c

/-- `clear_connection_buffer(fd)`: `storage` is not touched. -/
def clearConnectionBufferRaw (fd : Int) (c : RawConnection) : RawConnection :=
  if 0 ≤ fd ∧ fd < maxFds then { c with accumulatedBytes := 0 } else c

/-- `connections[fd]`, the bytes its peer has yet to send, and what the last call did. -/
structure Descriptor where
  connection : RawConnection
  incoming : Text
  trace : Trace

/-- Nothing was read. -/
def Trace.none : Trace := ⟨.none, .none, .none, .more⟩

/-- The static array, after `initialize_connection_buffers`. -/
def Descriptor.start (stream : Text) : Descriptor :=
  ⟨⟨List.replicate bufferLen '\x00', 0⟩, stream, .none⟩

/-- A call on the descriptor, or the kernel gives it to another connection. -/
inductive CallEvent where
  | read (stack : Stack) (a : Answer)
  | clear
  | connect (stream : Text)

def descriptorStep (fd : Int) (d : Descriptor) : CallEvent → Option Descriptor
  | .read stack a =>
      (readUntilNewlineRaw fd stack a d.incoming d.connection).map
        fun (c, incoming, trace) => ⟨c, incoming, trace⟩
  | .clear =>
      some { d with connection := clearConnectionBufferRaw fd d.connection, trace := .none }
  | .connect stream => some { d with incoming := stream, trace := .none }

/-- The counter is inside the array, and a NUL follows the bytes in use. -/
structure InBounds (c : RawConnection) : Prop where
  size : c.buffer.length = 1024
  lower : 0 ≤ c.accumulatedBytes
  upper : c.accumulatedBytes ≤ 1023
  terminated : 0 < c.accumulatedBytes → c.buffer[c.accumulatedBytes.toNat]? = some '\x00'

theorem inBounds_raw (c : Connection) : InBounds (raw c) where
  size := c.size
  lower := Int.natCast_nonneg _
  upper := by
    have hBound := c.bounded
    rw [bufferLen] at hBound
    show (c.accumulatedBytes : Int) ≤ 1023
    omega
  terminated hPos := c.terminated (Int.natCast_pos.mp hPos)

theorem sound_none : Sound .none := sound_silent (by simp) (by simp) (by simp)

/-- A call keeps the connection well formed, and what it does is in bounds. -/
theorem descriptorStep_raw (fd : Int) {d : Descriptor} {c : Connection}
    (hRaw : d.connection = raw c) (e : CallEvent) :
    ∃ d' c', descriptorStep fd d e = some d' ∧ d'.connection = raw c' ∧ Sound d'.trace := by
  cases e with
  | read stack a =>
      by_cases hOut : fd < 0 ∨ maxFds ≤ fd
      · refine ⟨⟨d.connection, d.incoming, ⟨none, none, none, .closed⟩⟩, c, ?_, hRaw,
          sound_silent (by simp) (by simp) (by simp)⟩
        simp only [descriptorStep, readUntilNewlineRaw, if_pos hOut, Option.map_some]
      · obtain ⟨c', incoming, trace, hRead, -, hSound⟩ := readLineRaw_raw stack a d.incoming c
        refine ⟨⟨raw c', incoming, trace⟩, c', ?_, rfl, hSound⟩
        simp only [descriptorStep, readUntilNewlineRaw, if_neg hOut, hRaw, hRead,
          Option.map_some]
  | clear =>
      by_cases hIn : 0 ≤ fd ∧ fd < maxFds
      · refine ⟨_, c.clear, rfl, ?_, sound_none⟩
        simp only [clearConnectionBufferRaw, if_pos hIn, hRaw]
        rfl
      · refine ⟨_, c, rfl, ?_, sound_none⟩
        simp only [clearConnectionBufferRaw, if_neg hIn, hRaw]
  | connect stream => exact ⟨_, c, rfl, hRaw, sound_none⟩

/-- No access has left its array; the memory is that of a well-formed connection. -/
def WellFormed (s : Option Descriptor) : Prop :=
  ∃ d c, s = some d ∧ d.connection = raw c ∧ Sound d.trace

/-- **The line buffers stay in bounds.**  Whatever the peers send and however `recv` cuts it, no
call of `read_until_newline` or `clear_connection_buffer` leaves an array; after each of them the
counter is between 0 and 1023 with a NUL behind the bytes in use, and a call asks `recv` for 1 to
1023 bytes, takes 0 for an answer only at the end of the stream, returns at most 1023 characters
and never computes a negative `remaining`. -/
theorem line_buffer_bounds (fd : Int) (stream : Text) (es : List CallEvent) :
    ∃ d, run (checked (descriptorStep fd)) (some (.start stream)) es = some d ∧
      InBounds d.connection ∧ Sound d.trace := by
  have hStep : ∀ s e, WellFormed s → WellFormed (checked (descriptorStep fd) s e) := by
    rintro _ e ⟨d, c, rfl, hRaw, -⟩
    exact descriptorStep_raw fd hRaw e
  have hStart : WellFormed (some (.start stream)) := ⟨_, .fresh, rfl, rfl, sound_none⟩
  obtain ⟨d, c, hRun, hRaw, hSound⟩ := run_invariant_always WellFormed hStep hStart es
  exact ⟨d, hRun, hRaw ▸ inBounds_raw c, hSound⟩

end ResourceAgent.Ports.BufferBounds
