import ResourceAgent.Ports.Framing

/-!
# Lines that are not lines of the stream

`framing_independent_of_chunking` is about streams without NULs whose lines fit the buffer.
On any other stream a call may find the buffer full and no newline in it before the first
NUL.  It then drops the 1023 bytes and goes on reading where it is.  If that is in the middle
of a line, the rest of the line is returned as a line of its own, and the caller executes it.

`only_whole_lines` says that this is the only way: as long as every such cut falls on the end
of a line, each line returned is a complete line of the stream.
-/

namespace ResourceAgent.Ports.WholeLines

open ResourceAgent.Ports.Wire
open ResourceAgent.Ports.Framing
open ResourceAgent.Verified.CText
open ResourceAgent.Verified.CBuffer
open ResourceAgent.Verified.Lines
open ResourceAgent.Verified.Runs

/-- A line starts behind these bytes: there are none, or the last is a newline. -/
def AtLineStart (before : Text) : Prop := before = [] ∨ before.getLast? = some '\n'

instance (before : Text) : Decidable (AtLineStart before) :=
  inferInstanceAs (Decidable (_ ∨ _))

/-- `text` is a complete line of the stream, the one before the bytes `rest`. -/
def IsWhole (stream text rest : Text) : Prop :=
  IsLine '\n' text ∧ ∃ before, stream = before ++ (text ++ rest) ∧ AtLineStart before

/-- The line a call returns, if it returns one, is a complete line of the stream: the bytes
behind it are those left in the buffer and those still to come. -/
def ReturnsWhole (stream : Text) (fd : Int) (ch : Channel) (a : Arrival) : Prop :=
  ∀ text, (call fd ch a).last = .line text →
    IsWhole stream text ((call fd ch a).pending fd ++ (call fd ch a).incoming)

/-- If the call drops the bytes in the buffer, they end with a newline. -/
def CutsAtLineEnd (fd : Int) (ch : Channel) : Prop :=
  (ch.pending fd).length = 1023 → strchr '\n' (ch.pending fd) = none →
    (ch.pending fd).getLast? = some '\n'

instance (fd : Int) (ch : Channel) : Decidable (CutsAtLineEnd fd ch) :=
  inferInstanceAs (Decidable (_ → _ → _))

/-- The bytes in the buffer and those to come are the rest of the stream, from the start of a
line on. -/
def Synced (stream pending incoming : Text) : Prop :=
  ∃ before, stream = before ++ (pending ++ incoming) ∧ AtLineStart before

/-! ## One call -/

section

variable {stream pending incoming : Text}

theorem AtLineStart.append_line {before line : Text} (h : IsLine '\n' line) :
    AtLineStart (before ++ line) := by
  obtain ⟨body, -, rfl⟩ := h
  right
  rw [← List.append_assoc, List.getLast?_concat]

/-- Where a line starts is determined by what is left behind it. -/
theorem isWhole_iff {before text rest : Text} (hLine : IsLine '\n' text)
    (hSplit : stream = before ++ (text ++ rest)) :
    IsWhole stream text rest ↔ AtLineStart before := by
  constructor
  · rintro ⟨-, other, hOther, hStart⟩
    rw [hSplit] at hOther
    rw [List.append_cancel_right hOther]
    exact hStart
  · exact fun hStart => ⟨hLine, before, hSplit, hStart⟩

/-- What `strchr` finds is the end of a line. -/
theorem split_of_strchr {i : Nat} (h : strchr '\n' pending = some i) :
    IsLine '\n' (pending.take (i + 1)) ∧
      pending = pending.take (i + 1) ++ pending.drop (i + 1) := by
  refine ⟨?_, (List.take_append_drop _ _).symm⟩
  obtain ⟨body, rest, hSplit, hBody, rfl⟩ := strchr_eq_some h
  refine ⟨body, hBody, ?_⟩
  rw [hSplit, List.take_append, List.take_of_length_le (Nat.le_succ _)]
  simp

/-- A line is taken off the bytes in the buffer. -/
theorem taken {before : Text} {i : Nat} (hSplit : stream = before ++ (pending ++ incoming))
    (h : strchr '\n' pending = some i) :
    Synced stream (pending.drop (i + 1)) incoming ∧
      (IsWhole stream (pending.take (i + 1)) (pending.drop (i + 1) ++ incoming) ↔
        AtLineStart before) := by
  obtain ⟨hLine, hPending⟩ := split_of_strchr h
  have hWhole : stream =
      before ++ (pending.take (i + 1) ++ (pending.drop (i + 1) ++ incoming)) := by
    rw [hSplit, ← List.append_assoc (pending.take (i + 1)), ← hPending]
  refine ⟨⟨before ++ pending.take (i + 1), ?_, .append_line hLine⟩, isWhole_iff hLine hWhole⟩
  rw [List.append_assoc]
  exact hWhole

/-- The bytes that are left when room has been made. -/
theorem room_split {before q : Text} (hSplit : stream = before ++ (pending ++ incoming))
    (hRoom : q = if pending.length = 1023 then [] else pending) (n : Nat) :
    stream = (before ++ if pending.length = 1023 then pending else []) ++
      (q ++ incoming.take n ++ incoming.drop n) := by
  rw [hSplit, hRoom, List.append_assoc _ (incoming.take n), List.take_append_drop]
  by_cases hFull : pending.length = 1023
  · simp [hFull]
  · simp [hFull]

theorem room_start {before : Text} (hStart : AtLineStart before)
    (hNone : strchr '\n' pending = none) :
    AtLineStart (before ++ if pending.length = 1023 then pending else []) ↔
      (pending.length = 1023 → strchr '\n' pending = none → pending.getLast? = some '\n') := by
  by_cases hFull : pending.length = 1023
  · have hSome : pending ≠ [] := by
      rintro rfl
      cases hFull
    have hLast : (before ++ pending).getLast? = pending.getLast? :=
      List.getLast?_append_of_ne_nil _ hSome
    rw [if_pos hFull, AtLineStart, hLast]
    simp [hFull, hNone, hSome]
  · simp [hFull, hStart]

/-- **One call**, from a state in which the buffer starts with a line. -/
theorem Called.whole {a : Arrival} {r : Text × Text × Reading} (h : Called a pending incoming r)
    (hSynced : Synced stream pending incoming) :
    ((pending.length = 1023 → strchr '\n' pending = none → pending.getLast? = some '\n') →
        Synced stream r.2.1 r.1) ∧
      ∀ text, r.2.2 = .line text → (IsWhole stream text (r.2.1 ++ r.1) ↔
        (pending.length = 1023 → strchr '\n' pending = none → pending.getLast? = some '\n')) := by
  obtain ⟨before, hSplit, hStart⟩ := hSynced
  cases h with
  | buffered hFound =>
      obtain ⟨hNext, hWhole⟩ := taken hSplit hFound
      refine ⟨fun _ => hNext, ?_⟩
      rintro text ⟨⟩
      rw [hWhole, iff_true_left hStart]
      intro _ hNone
      rw [hFound] at hNone
      cases hNone
  | nothing hNone hRoom _ =>
      refine ⟨fun hCut => ⟨_, ?_, (room_start hStart hNone).mpr hCut⟩, by rintro text ⟨⟩⟩
      have := room_split hSplit hRoom 0
      simpa using this
  | ended hNone hRoom hEnd =>
      refine ⟨fun hCut => ⟨_, ?_, (room_start hStart hNone).mpr hCut⟩, by rintro text ⟨⟩⟩
      have := room_split hSplit hRoom 0
      simpa [hEnd] using this
  | @partly q n hNone hRoom _ _ _ =>
      refine ⟨fun hCut => ⟨_, ?_, (room_start hStart hNone).mpr hCut⟩, by rintro text ⟨⟩⟩
      exact room_split hSplit hRoom n
  | @completed q n i hNone hRoom _ _ hFound =>
      obtain ⟨hNext, hWhole⟩ := taken (room_split hSplit hRoom n) hFound
      refine ⟨fun _ => hNext, ?_⟩
      rintro text ⟨⟩
      rw [hWhole]
      exact room_start hStart hNone

end

/-! ## Any number of calls -/

section

variable {stream : Text} {fd : Int} {ch : Channel}

theorem synced_call (hSynced : Synced stream (ch.pending fd) ch.incoming) (a : Arrival) :
    (CutsAtLineEnd fd ch → Synced stream ((call fd ch a).pending fd) (call fd ch a).incoming) ∧
      ∀ text, (call fd ch a).last = .line text →
        (IsWhole stream text ((call fd ch a).pending fd ++ (call fd ch a).incoming) ↔
          CutsAtLineEnd fd ch) := by
  by_cases hFd : 0 ≤ fd ∧ fd < maxFds
  · exact Called.whole (call_called hFd ch a) hSynced
  · have hOut : fd < 0 ∨ maxFds ≤ fd := by omega
    have hCall : call fd ch a = ⟨ch.connections, ch.incoming, ch.returned, .closed⟩ := by
      simp [call, readUntilNewline, hOut, Reading.lines]
    rw [hCall]
    exact ⟨fun _ => hSynced, by rintro text ⟨⟩⟩

theorem synced_start {connections : Buffers} (hEmpty : (connections fd).accumulatedBytes = 0) :
    Synced stream ((Channel.start connections stream).pending fd)
      (Channel.start connections stream).incoming := by
  refine ⟨[], ?_, .inl rfl⟩
  have hPending : (Channel.start connections stream).pending fd = [] := by
    rw [← List.length_eq_zero_iff, Channel.pending, Connection.length_pending]
    exact hEmpty
  rw [hPending]
  rfl

end

/-- **Only whole lines are returned**, on any stream and with any chunking, by a run of calls
that drop a full buffer only at the end of a line.  The condition is exact: the call after such
a run, if it returns a line, returns a complete line exactly if it meets the condition. -/
theorem only_whole_lines {stream : Text} {fd : Int} {connections : Buffers}
    (hEmpty : (connections fd).accumulatedBytes = 0) {arrivals : List Arrival}
    (hCuts : Meets (call fd) (fun ch _ => CutsAtLineEnd fd ch)
      (Channel.start connections stream) arrivals) :
    Meets (call fd) (ReturnsWhole stream fd) (Channel.start connections stream) arrivals ∧
      ∀ a text, (call fd (run (call fd) (Channel.start connections stream) arrivals) a).last =
          .line text →
        (ReturnsWhole stream fd (run (call fd) (Channel.start connections stream) arrivals) a ↔
          CutsAtLineEnd fd (run (call fd) (Channel.start connections stream) arrivals)) := by
  have hStart : Synced stream ((Channel.start connections stream).pending fd)
      (Channel.start connections stream).incoming := synced_start hEmpty
  refine ⟨?_, fun a text hLine => ?_⟩
  · refine Meets.of_invariant (fun ch => Synced stream (ch.pending fd) ch.incoming) ?_ hStart hCuts
    intro ch a hSynced hCut
    obtain ⟨hNext, hWhole⟩ := synced_call hSynced a
    exact ⟨hNext hCut, fun text hLine => (hWhole text hLine).mpr hCut⟩
  · have hSynced := run_invariant (fun ch => Synced stream (ch.pending fd) ch.incoming)
      (fun ch a hSynced hCut => (synced_call hSynced a).1 hCut) hStart hCuts
    rw [← (synced_call hSynced a).2 text hLine]
    constructor
    · exact fun hWhole => hWhole text hLine
    · intro hWhole other hOther
      rw [hLine] at hOther
      cases hOther
      exact hWhole

/-- A line with a NUL in it, as long as the buffer, and a GRANTED. -/
def hidden : Text := '\x00' :: (List.replicate 1021 'x' ++ "\nGRANTED 7\n".toList)

/-- The line with the NUL is dropped as a whole. -/
theorem only_whole_lines_hidden :
    (call 7 (run (call 7) (Channel.start (fun _ => .fresh) hidden) [.upTo 1022]) (.upTo 9)).last =
        .line "GRANTED 7\n".toList ∧
      Meets (call 7) (ReturnsWhole hidden 7) (Channel.start (fun _ => .fresh) hidden)
        [.upTo 1022, .upTo 9] := by
  have hCuts : Meets (call 7) (fun ch _ => CutsAtLineEnd 7 ch)
      (Channel.start (fun _ => .fresh) hidden) [.upTo 1022, .upTo 9] := by decide +kernel
  exact ⟨by decide +kernel, (only_whole_lines rfl hCuts).1⟩

/-- A line that is longer than the buffer, with a command behind the cut. -/
def overlong : Text := List.replicate 1023 'x' ++ "RELEASE 1\n".toList

/-- Lines that all fit, the first with a NUL in it; the cut falls into the third. -/
def afterNul : Text :=
  "\x00\n".toList ++ List.replicate 500 'a' ++ "\n".toList ++ List.replicate 520 'b' ++
    "RELEASE 1\n".toList

/-- The last bytes of a stream are returned, and no line starts there. -/
theorem not_whole {stream before text : Text} {fd : Int} {ch : Channel} {a : Arrival}
    (hSplit : stream = before ++ text) (hLine : IsLine '\n' text) (hStart : ¬ AtLineStart before)
    (hLast : (call fd ch a).last = .line text ∧ (call fd ch a).pending fd = [] ∧
      (call fd ch a).incoming = []) : ¬ ReturnsWhole stream fd ch a := by
  intro hWhole
  have hText := hWhole text hLast.1
  rw [hLast.2.1, hLast.2.2, isWhole_iff hLine (by simpa using hSplit)] at hText
  exact hStart hText

/-- The tail of a line is returned as a line. -/
theorem tail_of_line_is_returned :
    ¬ ReturnsWhole overlong 7
        (run (call 7) (Channel.start (fun _ => .fresh) overlong) [.upTo 1022]) (.upTo 9) ∧
      ¬ ReturnsWhole afterNul 7
        (run (call 7) (Channel.start (fun _ => .fresh) afterNul) [.upTo 1022]) (.upTo 9) := by
  have hTail : IsLine '\n' "RELEASE 1\n".toList := ⟨"RELEASE 1".toList, by decide, rfl⟩
  constructor
  · exact not_whole rfl hTail (by decide +kernel) (by decide +kernel)
  · exact not_whole rfl hTail (by decide +kernel) (by decide +kernel)

end ResourceAgent.Ports.WholeLines
