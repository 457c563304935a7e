import ResourceAgent.Ports.Discovery

/-!
# Which datagrams change `table_nodes`

`udp_datagram_from_remote` splits what it received at blanks and, if there are
five tokens, reads a port from the second and an amount behind the first colon
of the next three.  The first token and the three names are not looked at.

`Announces` is the format the source gives in a comment and `udp_broadcast`
prints, `ANNOUNCE <port> cpu:<n> mem:<n> gpu:<n>`, as a grammar of its own.
Datagrams of that form that fit the buffer and whose numbers are `int`s are
recorded exactly (`readsAs_iff`); every other datagram with five tokens in its
first 1023 bytes is recorded too.  `directory_exact_iff` says when the table does
what the format promises.
-/

namespace ResourceAgent.Ports.Announcements

open ResourceAgent.Ports.HashTable
open ResourceAgent.Ports.Records
open ResourceAgent.Ports.Wire
open ResourceAgent.Ports.Discovery
open ResourceAgent.Verified.CText

/-! ## The format -/

/-- The words of an announcement with these numerals. -/
def announcementWords (port cpu mem gpu : Text) : List Text :=
  ["ANNOUNCE".toList, port, Resource.cpu.name ++ ':' :: cpu, Resource.mem.name ++ ':' :: mem,
    Resource.gpu.name ++ ':' :: gpu]

/-- `ANNOUNCE <port> cpu:<n> mem:<n> gpu:<n>` with decimal integers, with or
without a newline. -/
def Announces (text : Text) (port cpu mem gpu : Int) : Prop :=
  ∃ p c m g, Numeral p port ∧ Numeral c cpu ∧ Numeral m mem ∧ Numeral g gpu ∧
    (text = unwords (announcementWords p c m g) ∨
      text ++ ['\n'] = unwords (announcementWords p c m g))

/-- What `recvfrom` hands over of a datagram. -/
def received (datagram : Text) : Text := datagram.take (bufferLen - 1)

/-- The tokens of what was received. -/
def receivedTokens (datagram : Text) : List Text := getToken 10 (copyLine (received datagram))

theorem announcementWords_clean {p c m g : Text} {port cpu mem gpu : Int} (hp : Numeral p port)
    (hc : Numeral c cpu) (hm : Numeral m mem) (hg : Numeral g gpu) :
    ∀ w ∈ announcementWords p c m g, IsWord isBlank w ∧ '\x00' ∉ w := by
  intro w hw
  simp only [announcementWords, List.mem_cons, List.not_mem_nil, or_false] at hw
  rcases hw with rfl | rfl | rfl | rfl | rfl
  · exact ⟨isWord_of_all (by decide) (by decide), by decide⟩
  · exact numeral_clean hp
  · exact numeral_field_clean .cpu hc
  · exact numeral_field_clean .mem hm
  · exact numeral_field_clean .gpu hg

/-- An announcement splits into its words. -/
theorem tokens_announces {text p c m g : Text} {port cpu mem gpu : Int} (hp : Numeral p port)
    (hc : Numeral c cpu) (hm : Numeral m mem) (hg : Numeral g gpu)
    (h : text = unwords (announcementWords p c m g) ∨
      text ++ ['\n'] = unwords (announcementWords p c m g)) :
    getToken 10 text = announcementWords p c m g := by
  have hSplit := @tokens_unwords isBlank (by decide) (by decide)
    (announcementWords p c m g) 10 fun w hw => (announcementWords_clean hp hc hm hg w hw).1
  rw [getToken]
  rcases h with h | h
  · rw [h, hSplit]
    rfl
  · rw [← tokens_snoc (show isBlank '\n' = true by decide), h, hSplit]
    rfl

theorem nul_not_mem_announces {text p c m g : Text} {port cpu mem gpu : Int} (hp : Numeral p port)
    (hc : Numeral c cpu) (hm : Numeral m mem) (hg : Numeral g gpu)
    (h : text = unwords (announcementWords p c m g) ∨
      text ++ ['\n'] = unwords (announcementWords p c m g)) : '\x00' ∉ text := by
  have hLine : '\x00' ∉ unwords (announcementWords p c m g) := by
    intro hNul
    rcases mem_unwords hNul with hNul | hNul | ⟨w, hw, hNul⟩
    · exact absurd hNul (by decide)
    · exact absurd hNul (by decide)
    · exact (announcementWords_clean hp hc hm hg w hw).2 hNul
  intro hMem
  rcases h with h | h
  · exact hLine (h ▸ hMem)
  · exact hLine (h ▸ List.mem_append_left _ hMem)

/-- A datagram announces one thing only. -/
theorem announces_unique {text : Text} {port cpu mem gpu port' cpu' mem' gpu' : Int}
    (h : Announces text port cpu mem gpu) (h' : Announces text port' cpu' mem' gpu') :
    port = port' ∧ cpu = cpu' ∧ mem = mem' ∧ gpu = gpu' := by
  obtain ⟨p, c, m, g, hp, hc, hm, hg, hText⟩ := h
  obtain ⟨p', c', m', g', hp', hc', hm', hg', hText'⟩ := h'
  have hSame := (tokens_announces hp hc hm hg hText).symm.trans
    (tokens_announces hp' hc' hm' hg' hText')
  simp only [announcementWords, List.cons.injEq, true_and, and_true, List.append_cancel_left_eq]
    at hSame
  obtain ⟨rfl, rfl, rfl, rfl⟩ := hSame
  exact ⟨hp.unique hp', hc.unique hc', hm.unique hm', hg.unique hg'⟩

/-- What is received of the datagram has five tokens, which are read as these numbers. -/
def ReadsAs (datagram : Text) (port cpu mem gpu : Int) : Prop :=
  ∃ first p c m g rest, receivedTokens datagram = first :: p :: c :: m :: g :: rest ∧
    atoi p = port ∧ getQuantity c = cpu ∧ getQuantity m = mem ∧ getQuantity g = gpu

/-- **An announcement that fits is read as its numbers** exactly if they are `int`s. -/
theorem readsAs_iff {datagram : Text} {port cpu mem gpu : Int}
    (hFits : datagram.length ≤ bufferLen - 1) (h : Announces datagram port cpu mem gpu) :
    ReadsAs datagram port cpu mem gpu ↔ IsInt port ∧ IsInt cpu ∧ IsInt mem ∧ IsInt gpu := by
  obtain ⟨p, c, m, g, hp, hc, hm, hg, hText⟩ := h
  have hTokens : receivedTokens datagram = announcementWords p c m g := by
    rw [receivedTokens, received, List.take_of_length_le hFits, copyLine,
      strncpy_eq_self hFits (nul_not_mem_announces hp hc hm hg hText)]
    exact tokens_announces hp hc hm hg hText
  constructor
  · rintro ⟨first, p', c', m', g', rest, hSame, rfl, rfl, rfl, rfl⟩
    rw [hTokens, announcementWords] at hSame
    simp only [List.cons.injEq] at hSame
    obtain ⟨-, rfl, rfl, rfl, rfl, -⟩ := hSame
    rw [getQuantity_field .cpu hc, getQuantity_field .mem hm, getQuantity_field .gpu hg]
    exact ⟨atoi_isInt p, atoi_isInt c, atoi_isInt m, atoi_isInt g⟩
  · rintro ⟨hPort, hCpu, hMem, hGpu⟩
    refine ⟨_, _, _, _, _, _, hTokens, hp.atoi_eq hPort, ?_, ?_, ?_⟩
    · rw [getQuantity_field .cpu hc, hc.atoi_eq hCpu]
    · rw [getQuantity_field .mem hm, hm.atoi_eq hMem]
    · rw [getQuantity_field .gpu hg, hg.atoi_eq hGpu]

/-! ## What a datagram does to the table -/

theorem udpDatagram_short {nodes : Table nodeCallbacks} {sender now : Int} {datagram : Text}
    (h : (receivedTokens datagram).length < 5) :
    udpDatagramFromRemote nodes sender datagram now = nodes := by
  rw [udpDatagramFromRemote]
  split
  · rfl
  · split
    · rename_i first port cpu mem gpu rest hTokens
      have hLen := congrArg List.length hTokens
      rw [receivedTokens, received, hLen] at h
      simp only [List.length_cons] at h
      omega
    · rfl

theorem udpDatagram_reads {nodes : Table nodeCallbacks} {sender now : Int} {datagram : Text}
    {port cpu mem gpu : Int} (h : ReadsAs datagram port cpu mem gpu) :
    udpDatagramFromRemote nodes sender datagram now =
      tablahashInsert nodes ⟨sender, port, gpu, mem, cpu, now⟩ := by
  obtain ⟨first, p, c, m, g, rest, hReceived, rfl, rfl, rfl, rfl⟩ := h
  have hTokens : getToken 10 (copyLine (datagram.take (bufferLen - 1))) =
      first :: p :: c :: m :: g :: rest := hReceived
  have hSome : datagram.take (bufferLen - 1) ≠ [] := by
    intro hNil
    rw [hNil] at hTokens
    cases hTokens
  simp only [udpDatagramFromRemote, hSome, if_false, hTokens]

theorem exists_five_tokens {ts : List Text} (h : 5 ≤ ts.length) :
    ∃ first port cpu mem gpu rest, ts = first :: port :: cpu :: mem :: gpu :: rest := by
  match ts with
  | first :: port :: cpu :: mem :: gpu :: rest => exact ⟨first, port, cpu, mem, gpu, rest, rfl⟩
  | [] | [_] | [_, _] | [_, _, _] | [_, _, _, _] => simp at h

/-- Five tokens are read as some numbers. -/
theorem exists_readsAs {datagram : Text} (h : ¬ (receivedTokens datagram).length < 5) :
    ∃ port cpu mem gpu, ReadsAs datagram port cpu mem gpu := by
  obtain ⟨first, p, c, m, g, rest, hTokens⟩ := exists_five_tokens (Nat.not_lt.mp h)
  exact ⟨_, _, _, _, first, p, c, m, g, rest, hTokens, rfl, rfl, rfl, rfl⟩

theorem ReadsAs.unique {datagram : Text} {port cpu mem gpu port' cpu' mem' gpu' : Int}
    (h : ReadsAs datagram port cpu mem gpu) (h' : ReadsAs datagram port' cpu' mem' gpu') :
    port = port' ∧ cpu = cpu' ∧ mem = mem' ∧ gpu = gpu' := by
  obtain ⟨first, p, c, m, g, rest, hTokens, rfl, rfl, rfl, rfl⟩ := h
  obtain ⟨first', p', c', m', g', rest', hTokens', rfl, rfl, rfl, rfl⟩ := h'
  rw [hTokens] at hTokens'
  simp only [List.cons.injEq] at hTokens'
  obtain ⟨-, rfl, rfl, rfl, rfl, -⟩ := hTokens'
  exact ⟨rfl, rfl, rfl, rfl⟩

theorem ReadsAs.not_short {datagram : Text} {port cpu mem gpu : Int}
    (h : ReadsAs datagram port cpu mem gpu) : ¬ (receivedTokens datagram).length < 5 := by
  obtain ⟨first, p, c, m, g, rest, hTokens, -⟩ := h
  rw [hTokens]
  simp only [List.length_cons]
  omega

/-- The sender's record is the given one and the others are as they were. -/
def SetsRecord (nodes nodes' : Table nodeCallbacks) (node : ReceivedNode) : Prop :=
  ∀ e, e ∈ nodes'.toList ↔ e = node ∨ (e ∈ nodes.toList ∧ e.ip ≠ node.ip)

/-- No record has changed. -/
def Unchanged (nodes nodes' : Table nodeCallbacks) : Prop :=
  ∀ e, e ∈ nodes'.toList ↔ e ∈ nodes.toList

theorem setsRecord_insert (nodes : Table nodeCallbacks) (node : ReceivedNode) :
    SetsRecord nodes (tablahashInsert nodes node) node := by
  intro e
  rw [mem_insert, nodeCallbacks_same]
  simp

/-- A record can be set to one value only. -/
theorem SetsRecord.unique {nodes nodes' : Table nodeCallbacks} {a b : ReceivedNode}
    (ha : SetsRecord nodes nodes' a) (hb : SetsRecord nodes nodes' b) (hIp : a.ip = b.ip) :
    a = b := by
  rcases (hb a).mp ((ha a).mpr (.inl rfl)) with h | ⟨-, hOther⟩
  · exact h
  · exact absurd hIp hOther

theorem unchanged_insert_iff (nodes : Table nodeCallbacks) (node : ReceivedNode) :
    Unchanged nodes (tablahashInsert nodes node) ↔ node ∈ nodes.toList := by
  constructor
  · intro h
    exact (h node).mp ((setsRecord_insert nodes node node).mpr (.inl rfl))
  · intro hMem e
    rw [setsRecord_insert nodes node e]
    constructor
    · intro h
      rcases h with rfl | ⟨he, -⟩
      · exact hMem
      · exact he
    · intro he
      by_cases hIp : e.ip = node.ip
      · refine .inl (nodes.eq_of_same he hMem ?_)
        rw [nodeCallbacks_same]
        exact decide_eq_true hIp
      · exact .inr ⟨he, hIp⟩

/-- A record that is there already has been set to what it is. -/
theorem setsRecord_refl_iff (nodes : Table nodeCallbacks) (node : ReceivedNode) :
    SetsRecord nodes nodes node ↔ node ∈ nodes.toList := by
  constructor
  · intro h
    exact (h node).mpr (.inl rfl)
  · intro hMem e
    have hKept := (unchanged_insert_iff nodes node).mpr hMem e
    exact hKept.symm.trans (setsRecord_insert nodes node e)

/-- The datagram changes the table only as an announcement: one of that form
sets the sender's record, any other leaves the table alone. -/
def OnlyAnnouncements (nodes : Table nodeCallbacks) (sender : Int) (datagram : Text)
    (now : Int) : Prop :=
  (∀ port cpu mem gpu, Announces datagram port cpu mem gpu →
      SetsRecord nodes (udpDatagramFromRemote nodes sender datagram now)
        ⟨sender, port, gpu, mem, cpu, now⟩) ∧
    ((∀ port cpu mem gpu, ¬ Announces datagram port cpu mem gpu) →
      Unchanged nodes (udpDatagramFromRemote nodes sender datagram now))

section

variable (nodes : Table nodeCallbacks) (sender : Int) (datagram : Text) (now : Int)

/-- When the sender's record becomes this one. -/
theorem udpDatagram_sets_iff (port cpu mem gpu : Int) :
    SetsRecord nodes (udpDatagramFromRemote nodes sender datagram now)
        ⟨sender, port, gpu, mem, cpu, now⟩ ↔
      ReadsAs datagram port cpu mem gpu ∨
        (receivedTokens datagram).length < 5 ∧
          ⟨sender, port, gpu, mem, cpu, now⟩ ∈ nodes.toList := by
  by_cases hShort : (receivedTokens datagram).length < 5
  · rw [udpDatagram_short hShort, setsRecord_refl_iff]
    exact ⟨fun hMem => .inr ⟨hShort, hMem⟩, fun h => h.elim (fun hReads =>
      absurd hShort hReads.not_short) fun hMem => hMem.2⟩
  · obtain ⟨port', cpu', mem', gpu', hReads⟩ := exists_readsAs hShort
    rw [udpDatagram_reads hReads]
    constructor
    · intro hSets
      have hEq := hSets.unique (setsRecord_insert nodes _) rfl
      simp only [ReceivedNode.mk.injEq, true_and, and_true] at hEq
      obtain ⟨rfl, rfl, rfl, rfl⟩ := hEq
      exact .inl hReads
    · intro h
      rcases h with hSame | ⟨hLess, -⟩
      · obtain ⟨rfl, rfl, rfl, rfl⟩ := hReads.unique hSame
        exact setsRecord_insert nodes _
      · exact absurd hLess hShort

/-- When nothing changes. -/
theorem udpDatagram_unchanged_iff :
    Unchanged nodes (udpDatagramFromRemote nodes sender datagram now) ↔
      (receivedTokens datagram).length < 5 ∨
        ∃ port cpu mem gpu, ReadsAs datagram port cpu mem gpu ∧
          ⟨sender, port, gpu, mem, cpu, now⟩ ∈ nodes.toList := by
  by_cases hShort : (receivedTokens datagram).length < 5
  · rw [udpDatagram_short hShort]
    exact ⟨fun _ => .inl hShort, fun _ e => Iff.rfl⟩
  · obtain ⟨port, cpu, mem, gpu, hReads⟩ := exists_readsAs hShort
    rw [udpDatagram_reads hReads, unchanged_insert_iff]
    constructor
    · exact fun hMem => .inr ⟨port, cpu, mem, gpu, hReads, hMem⟩
    · intro h
      rcases h with hLess | ⟨port', cpu', mem', gpu', hSame, hMem⟩
      · exact absurd hLess hShort
      · obtain ⟨rfl, rfl, rfl, rfl⟩ := hReads.unique hSame
        exact hMem

end

/-- **Only announcements enter the directory, for these datagrams.**  A datagram, of any
length, does to `table_nodes` what the format promises if and only if

* it is an announcement and what is received of it is read as its numbers (or it has fewer
  than five tokens, and the announced record is already there), or
* it is none, and what is received has fewer than five tokens or the record these make is
  already there.

An announcement of at most 1023 bytes is read as its numbers exactly if they are `int`s. -/
theorem directory_exact_iff (nodes : Table nodeCallbacks) (sender : Int) (datagram : Text)
    (now : Int) :
    (OnlyAnnouncements nodes sender datagram now ↔
      (∃ port cpu mem gpu, Announces datagram port cpu mem gpu ∧
          (ReadsAs datagram port cpu mem gpu ∨ (receivedTokens datagram).length < 5 ∧
            ⟨sender, port, gpu, mem, cpu, now⟩ ∈ nodes.toList)) ∨
        ((∀ port cpu mem gpu, ¬ Announces datagram port cpu mem gpu) ∧
          ((receivedTokens datagram).length < 5 ∨
            ∃ port cpu mem gpu, ReadsAs datagram port cpu mem gpu ∧
              ⟨sender, port, gpu, mem, cpu, now⟩ ∈ nodes.toList))) ∧
      (datagram.length ≤ 1023 → ∀ port cpu mem gpu, Announces datagram port cpu mem gpu →
        (ReadsAs datagram port cpu mem gpu ↔
          IsInt port ∧ IsInt cpu ∧ IsInt mem ∧ IsInt gpu)) := by
  refine ⟨?_, fun hFits port cpu mem gpu h => readsAs_iff hFits h⟩
  rw [OnlyAnnouncements, udpDatagram_unchanged_iff]
  by_cases hForm : ∃ port cpu mem gpu, Announces datagram port cpu mem gpu
  · obtain ⟨port, cpu, mem, gpu, hAnnounces⟩ := hForm
    constructor
    · intro hOnly
      exact .inl ⟨port, cpu, mem, gpu, hAnnounces,
        (udpDatagram_sets_iff nodes sender datagram now port cpu mem gpu).mp
          (hOnly.1 port cpu mem gpu hAnnounces)⟩
    · intro hCond
      refine ⟨fun port' cpu' mem' gpu' hOther => ?_,
        fun hNone => absurd hAnnounces (hNone port cpu mem gpu)⟩
      rcases hCond with ⟨port₁, cpu₁, mem₁, gpu₁, hSome, hReads⟩ | ⟨hNone, -⟩
      · obtain ⟨rfl, rfl, rfl, rfl⟩ := announces_unique hSome hOther
        exact (udpDatagram_sets_iff nodes sender datagram now _ _ _ _).mpr hReads
      · exact absurd hAnnounces (hNone port cpu mem gpu)
  · have hNone : ∀ port cpu mem gpu, ¬ Announces datagram port cpu mem gpu :=
      fun port cpu mem gpu h => hForm ⟨port, cpu, mem, gpu, h⟩
    constructor
    · exact fun hOnly => .inr ⟨hNone, hOnly.2 hNone⟩
    · intro hCond
      refine ⟨fun port cpu mem gpu hSome => absurd hSome (hNone port cpu mem gpu), fun _ => ?_⟩
      rcases hCond with ⟨port, cpu, mem, gpu, hSome, -⟩ | ⟨-, hUnchanged⟩
      · exact absurd hSome (hNone port cpu mem gpu)
      · exact hUnchanged

/-- A datagram that announces nothing: another command and no names. -/
def strangeDatagram : Text := "GOODBYE -7 x y z".toList

/-- It is recorded all the same, as a node at port -7 without resources. -/
theorem strange_datagram_is_recorded :
    (∀ port cpu mem gpu, ¬ Announces strangeDatagram port cpu mem gpu) ∧
      (udpDatagramFromRemote (tablahashCreate nodeCallbacks) 10 strangeDatagram 100).toList =
        [⟨10, -7, 0, 0, 0, 100⟩] := by
  refine ⟨?_, by decide +kernel⟩
  intro port cpu mem gpu h
  obtain ⟨p, c, m, g, hp, hc, hm, hg, hText⟩ := h
  have hTokens := tokens_announces hp hc hm hg hText
  have hFirst : (getToken 10 strangeDatagram).head? = some "GOODBYE".toList := by
    decide +kernel
  rw [hTokens] at hFirst
  exact absurd hFirst (by simp [announcementWords])

end ResourceAgent.Ports.Announcements
