import DeadKernel.Io.LinkProtocol

/-! Commands that are given up. The handler counts RESENDs in one counter for all commands, which no
ACK resets, and leaves the next command unsent when it drops one.
-/

namespace DeadKernel

/-- The driver with what it was asked. `commands` are the queued commands, each with the bytes that
are left of it, and `replies` counts the RESENDs for the byte in front since the last ACK.
-/
structure RetryState where
  keyboard : Keyboard
  commands : List (List UInt8)
  replies : Nat

def RetryState.contents (st : RetryState) : List UInt8 :=
  cyclicBufferContents st.keyboard.commandBuffer

/-- The commands behind an ACK for the byte in front. -/
def acknowledgeByte : List (List UInt8) → List (List UInt8)
  | [] => []
  | command :: rest => if command.tail = [] then rest else command.tail :: rest

/-- The commands with one of which so many bytes found room. -/
def queueCommand (bytes : List UInt8) (commands : List (List UInt8)) : List (List UInt8) :=
  if bytes = [] then commands else commands ++ [bytes]

/-- Whether the handler takes bytes off the queue that are not acknowledged. -/
def RetryState.discards (scancode : UInt8) (st : RetryState) : Bool :=
  scancode ≠ kbdRetAck
    ∧ (keyboardHandler scancode st.keyboard).commandBuffer.count
      < st.keyboard.commandBuffer.count

/-- One interrupt. -/
def RetryState.step (scancode : UInt8) (st : RetryState) : RetryState where
  keyboard := keyboardHandler scancode st.keyboard
  commands :=
    if scancode = kbdRetAck then acknowledgeByte st.commands
    else if st.discards scancode then st.commands.tail
    else queueCommand (entering scancode st.keyboard) st.commands
  replies :=
    if scancode = kbdRetAck ∨ st.discards scancode then 0
    else if scancode = kbdRetResend ∧ 0 < st.keyboard.commandBuffer.count then st.replies + 1
    else st.replies

/-- After `initKeyboard`, which has queued three commands. -/
def RetryState.start (commandBlock charBlock : Nat → UInt8) : RetryState where
  keyboard := initKeyboard commandBlock charBlock
  commands := [[kbdCmdSetLeds, 0], [kbdCmdSetLeds, 2], [kbdCmdSetRepeatSpeed, 0x20]]
  replies := 0

/-- What a discard has to be: the third RESEND for its byte, of what is left of one command, and
with the next byte written.
-/
structure Disciplined (scancode : UInt8) (st : RetryState) : Prop where
  third : st.discards scancode = true → scancode = kbdRetResend ∧ 2 ≤ st.replies
  whole : st.discards scancode = true → (st.step scancode).contents = st.commands.tail.flatten
  next : st.discards scancode = true → (st.step scancode).contents ≠ []
    → wrote st.keyboard (st.step scancode).keyboard = true
      ∧ (st.step scancode).keyboard.port.head? = (st.step scancode).contents.head?

def DisciplinedRun : List UInt8 → RetryState → Prop
  | [], _ => True
  | scancode :: rest, st => Disciplined scancode st ∧ DisciplinedRun rest (st.step scancode)

/-- A RESEND that finds two counted and a queue that is not empty finds two of them for the byte in
front, and no further command.
-/
def LastCommand (scancode : UInt8) (st : RetryState) : Prop :=
  scancode = kbdRetResend → 2 ≤ st.keyboard.resendCounter →
    0 < st.keyboard.commandBuffer.count → 2 ≤ st.replies ∧ st.commands.length = 1

def LastCommandRun : List UInt8 → RetryState → Prop
  | [], _ => True
  | scancode :: rest, st => LastCommand scancode st ∧ LastCommandRun rest (st.step scancode)

-----------------------------------------------------------------------------------------
-- Commands
-----------------------------------------------------------------------------------------

/-- What is left of a command: not nothing, and no more than giving it up takes off. -/
structure Remainder (command : List UInt8) : Prop where
  some_ : command ≠ []
  whole : dropCommand command = []

theorem remainder_byte (byte : UInt8) : Remainder [byte] where
  some_ := List.cons_ne_nil _ _
  whole := by
    rw [dropCommand]
    split
    · rfl
    · rfl

theorem remainder_command {cmd : UInt8} (command : takesArgument cmd = true) (arg : UInt8)
    : Remainder [cmd, arg] where
  some_ := List.cons_ne_nil _ _
  whole := by rw [dropCommand, if_pos command, List.tail_cons]

theorem Remainder.tail {command : List UInt8} (remainder : Remainder command)
    (some_ : command.tail ≠ [])
    : Remainder command.tail := by
  obtain ⟨first, rest, rfl⟩ := List.exists_cons_of_ne_nil remainder.some_
  obtain ⟨second, later, same⟩ := List.exists_cons_of_ne_nil some_
  have whole := remainder.whole
  rw [List.tail_cons] at same
  rw [dropCommand, same] at whole
  rw [List.tail_cons, same]
  split at whole
  · rw [List.tail_cons] at whole
    rw [whole]
    exact remainder_byte second
  · contradiction

/-- The bytes of a command that find room are the beginning of it. -/
theorem remainder_entering {scancode : UInt8} {kbd : Keyboard}
    (some_ : entering scancode kbd ≠ [])
    : Remainder (entering scancode kbd) := by
  cases toggled : toggledLock scancode kbd.ledState with
  | none =>
      simp only [entering, toggled] at some_
      contradiction
  | some ledState =>
      simp only [entering, toggled] at some_ ⊢
      generalize keyboardCommandBufferSize - kbd.commandBuffer.count = room at some_ ⊢
      rcases room with _ | _ | room
      · contradiction
      · exact remainder_byte _
      · rw [List.take_of_length_le (by simp)]
        exact remainder_command rfl _

section Commands

variable {commands : List (List UInt8)}

theorem flatten_acknowledgeByte (all : ∀ command ∈ commands, Remainder command)
    : (acknowledgeByte commands).flatten = commands.flatten.tail := by
  cases commands with
  | nil => rfl
  | cons command rest =>
      obtain ⟨first, later, same⟩ :=
        List.exists_cons_of_ne_nil (all command List.mem_cons_self).some_
      rw [acknowledgeByte, same]
      split
      · rename_i empty
        rw [List.tail_cons] at empty
        rw [List.flatten_cons, empty]
        rfl
      · rfl

theorem flatten_queueCommand (bytes : List UInt8)
    : (queueCommand bytes commands).flatten = commands.flatten ++ bytes := by
  rw [queueCommand]
  split
  · rename_i empty
    rw [empty, List.append_nil]
  · rw [List.flatten_append, List.flatten_singleton]

end Commands

-----------------------------------------------------------------------------------------
-- One interrupt
-----------------------------------------------------------------------------------------

/-- The queue of the driver is that of the link, and holds the remainders of the commands. -/
structure Tracked (st : RetryState) (link : CommandLink) : Prop where
  drives : Drives st.keyboard link
  contents : st.commands.flatten = link.contents
  remainders : ∀ command ∈ st.commands, Remainder command

section Tracked

variable {st : RetryState} {link : CommandLink} {scancode : UInt8}

theorem Tracked.contents_step (h : Tracked st link) (scancode : UInt8)
    : (st.step scancode).contents = (link.handle scancode).contents :=
  (h.drives.keyboardHandler scancode).contents.contents_eq

theorem Tracked.discards_iff (h : Tracked st link) (scancode : UInt8)
    : st.discards scancode = true
      ↔ scancode ≠ kbdRetAck
        ∧ (link.handle scancode).contents.length < link.contents.length := by
  have before := h.drives.contents.count
  have behind := (h.drives.keyboardHandler scancode).contents.count
  rw [RetryState.discards, before, behind, decide_eq_true_eq]

/-- A step that discards nothing breaks no rule. -/
theorem disciplined_of_kept (kept : st.discards scancode = false) : Disciplined scancode st where
  third discards := absurd (kept.symm.trans discards) Bool.false_ne_true
  whole discards := absurd (kept.symm.trans discards) Bool.false_ne_true
  next discards := absurd (kept.symm.trans discards) Bool.false_ne_true

/-- Bytes are queued behind the others, or none are. -/
theorem Tracked.queued (h : Tracked st link) (noAck : scancode ≠ kbdRetAck)
    (contents : (link.handle scancode).contents
      = link.contents ++ entering scancode st.keyboard)
    : st.discards scancode = false ∧ Tracked (st.step scancode) (link.handle scancode) := by
  have kept : st.discards scancode = false := by
    rw [← Bool.not_eq_true, h.discards_iff, contents, List.length_append]
    omega
  refine ⟨kept, h.drives.keyboardHandler scancode, ?_, ?_⟩
  · simp only [RetryState.step, if_neg noAck, kept, Bool.false_eq_true, if_false]
    rw [flatten_queueCommand, h.contents, contents]
  · intro command mem
    simp only [RetryState.step, if_neg noAck, kept, Bool.false_eq_true, if_false] at mem
    rw [queueCommand] at mem
    split at mem
    · exact h.remainders command mem
    · rcases List.mem_append.mp mem with mem | mem
      · exact h.remainders command mem
      · rw [List.mem_singleton.mp mem]
        exact remainder_entering ‹_›

theorem Tracked.lockKey (h : Tracked st link) (pressed : isLockKey scancode = true)
    : st.discards scancode = false ∧ Tracked (st.step scancode) (link.handle scancode) := by
  obtain ⟨ledState, toggled⟩ := (isLockKey_iff scancode link.ledState).mp pressed
  refine h.queued (not_ack_of_isLockKey pressed) ?_
  rw [CommandLink.handle, toggled]
  simp only [entering, h.drives.ledState, toggled, h.drives.contents.count]
  exact CommandLink.lockKey_entering link ledState

/-- A byte that is no lock key queues nothing. -/
theorem Tracked.same (h : Tracked st link) (noAck : scancode ≠ kbdRetAck)
    (noLock : isLockKey scancode = false)
    (contents : (link.handle scancode).contents = link.contents)
    : st.discards scancode = false ∧ Tracked (st.step scancode) (link.handle scancode) := by
  refine h.queued noAck ?_
  rw [contents, entering, toggledLock_eq_none noLock, List.append_nil]

/-- An ACK takes the byte in front off its command. -/
theorem Tracked.ack (h : Tracked st link)
    : st.discards kbdRetAck = false ∧ Tracked (st.step kbdRetAck) (link.handle kbdRetAck) := by
  have contents : (link.handle kbdRetAck).contents = link.contents.tail := link.ack_contents
  have kept : st.discards kbdRetAck = false := by
    rw [← Bool.not_eq_true, h.discards_iff]
    exact fun both => both.1 rfl
  refine ⟨kept, h.drives.keyboardHandler kbdRetAck, ?_, ?_⟩
  · rw [contents, ← h.contents]
    exact flatten_acknowledgeByte h.remainders
  · intro command mem
    replace mem : command ∈ acknowledgeByte st.commands := mem
    cases commands : st.commands with
    | nil =>
        rw [commands] at mem
        contradiction
    | cons first rest =>
        have all := h.remainders
        rw [commands] at mem all
        rw [acknowledgeByte] at mem
        split at mem
        · exact all command (List.mem_cons_of_mem _ mem)
        · rcases List.mem_cons.mp mem with rfl | mem
          · exact (all first List.mem_cons_self).tail ‹_›
          · exact all command (List.mem_cons_of_mem _ mem)

/-- Commands of which nothing is left behind the first are one. -/
theorem Tracked.single (h : Tracked st link) (some_ : link.contents ≠ [])
    (rest : st.commands.tail.flatten = [])
    : st.commands.length = 1 := by
  have contents := h.contents
  have all := h.remainders
  cases commands : st.commands with
  | nil =>
      rw [commands] at contents
      exact absurd contents.symm some_
  | cons first later =>
      rw [commands] at all rest
      cases later with
      | nil => rfl
      | cons second later =>
          have left := (all second (List.mem_cons_of_mem _ List.mem_cons_self)).some_
          exact absurd (List.append_eq_nil_iff.mp rest).1 left

/-- The third RESEND that is counted gives up what is in front, and writes nothing. -/
theorem Tracked.giveUp (h : Tracked st link) (third : 2 ≤ link.resendCounter)
    (some_ : link.contents ≠ [])
    : (Disciplined kbdRetResend st ↔ 2 ≤ st.replies ∧ st.commands.length = 1)
      ∧ (2 ≤ st.replies ∧ st.commands.length = 1
        → Tracked (st.step kbdRetResend) (link.handle kbdRetResend)) := by
  have handled : link.handle kbdRetResend
      = { link with contents := dropCommand link.contents, resendCounter := 0 } := if_pos third
  have discards : st.discards kbdRetResend = true := by
    rw [h.discards_iff, handled]
    exact ⟨by decide, dropCommand_length_lt some_⟩
  have silent : wrote st.keyboard (st.step kbdRetResend).keyboard = false := by
    have next := (h.drives.keyboardHandler kbdRetResend).port
    rw [handled] at next
    simp [wrote, RetryState.step, next, h.drives.port]
  have commands : (st.step kbdRetResend).commands = st.commands.tail := by
    have noAck : kbdRetResend ≠ kbdRetAck := by decide
    simp only [RetryState.step, discards, if_neg noAck, if_true]
  -- Whatever is left of one command is given up whole.
  have given (one : st.commands.length = 1)
      : dropCommand link.contents = [] ∧ st.commands.tail = [] := by
    obtain ⟨command, only⟩ := List.length_eq_one_iff.mp one
    have whole := (h.remainders command (by rw [only]; exact List.mem_cons_self)).whole
    rw [← h.contents, only, List.flatten_singleton]
    exact ⟨whole, rfl⟩
  constructor
  · constructor
    · intro disciplined
      refine ⟨(disciplined.third discards).2, ?_⟩
      have nothing : (st.step kbdRetResend).contents = [] := by
        by_contra left
        have writes := (disciplined.next discards left).1
        rw [silent] at writes
        contradiction
      have rest := (disciplined.whole discards).symm.trans nothing
      exact h.single some_ rest
    · rintro ⟨twice, one⟩
      obtain ⟨empty, last⟩ := given one
      have left : (st.step kbdRetResend).contents = [] := by
        rw [h.contents_step, handled]
        exact empty
      refine ⟨fun _ => ⟨rfl, twice⟩, fun _ => ?_, fun _ some_ => absurd left some_⟩
      rw [left, last]
      rfl
  · rintro ⟨-, one⟩
    obtain ⟨empty, last⟩ := given one
    refine ⟨h.drives.keyboardHandler kbdRetResend, ?_, ?_⟩
    · rw [commands, last, handled]
      exact empty.symm
    · rw [commands, last]
      simp

/-- A step keeps to the rules exactly if the condition holds, and then the commands are tracked
again.
-/
theorem Tracked.step (h : Tracked st link) (scancode : UInt8)
    : (Disciplined scancode st ↔ LastCommand scancode st)
      ∧ (LastCommand scancode st → Tracked (st.step scancode) (link.handle scancode)) := by
  have fine (last : LastCommand scancode st)
      (both : st.discards scancode = false ∧ Tracked (st.step scancode) (link.handle scancode))
      : (Disciplined scancode st ↔ LastCommand scancode st)
        ∧ (LastCommand scancode st → Tracked (st.step scancode) (link.handle scancode)) :=
    ⟨iff_of_true (disciplined_of_kept both.1) last, fun _ => both.2⟩
  by_cases lock : isLockKey scancode = true
  · refine fine (fun resend => ?_) (h.lockKey lock)
    subst resend
    exact absurd lock (by decide)
  have noLock := eq_false_of_ne_true lock
  by_cases ack : scancode = kbdRetAck
  · subst ack
    exact fine (fun resend => absurd resend (by decide)) h.ack
  by_cases resend : scancode = kbdRetResend
  · subst resend
    have counter := h.drives.resendCounter
    have count := h.drives.contents.count
    by_cases third : 2 ≤ link.resendCounter
    · by_cases empty : link.contents = []
      · have contents : (link.handle kbdRetResend).contents = link.contents := by
          have handled : link.handle kbdRetResend
              = { link with contents := dropCommand link.contents, resendCounter := 0 } :=
            if_pos third
          rw [handled, empty]
          rfl
        refine fine (fun _ _ some_ => ?_) (h.same ack noLock contents)
        rw [count, empty] at some_
        contradiction
      · have condition : LastCommand kbdRetResend st
            ↔ 2 ≤ st.replies ∧ st.commands.length = 1 := by
          have some_ := List.length_pos_iff.mpr empty
          rw [LastCommand, counter, count]
          exact ⟨fun last => last rfl third some_, fun last _ _ _ => last⟩
        rw [condition]
        exact h.giveUp third empty
    · have contents : (link.handle kbdRetResend).contents = link.contents := by
        have handled : link.handle kbdRetResend
            = CommandLink.send 0 { link with resendCounter := (link.resendCounter + 1) % 256 } :=
          if_neg third
        rw [handled]
        rfl
      refine fine (fun _ twice => ?_) (h.same ack noLock contents)
      rw [counter] at twice
      contradiction
  · have contents : (link.handle scancode).contents = link.contents := by
      rw [CommandLink.handle, toggledLock_eq_none noLock]
      simp only [if_neg resend, if_neg ack]
    exact fine (fun same => absurd same resend) (h.same ack noLock contents)

end Tracked

-----------------------------------------------------------------------------------------
-- Runs
-----------------------------------------------------------------------------------------

theorem start_tracked (commandBlock charBlock : Nat → UInt8)
    : Tracked (RetryState.start commandBlock charBlock) CommandLink.init where
  drives := initKeyboard_drives commandBlock charBlock
  contents := rfl
  remainders := by
    intro command mem
    simp only [RetryState.start, List.mem_cons, List.not_mem_nil, or_false] at mem
    rcases mem with rfl | rfl | rfl
    · exact remainder_command rfl 0
    · exact remainder_command rfl 2
    · exact remainder_command rfl 0x20

/-- A run keeps to the rules exactly if each of its steps finds the condition. By induction over the
interrupts.
-/
theorem Tracked.disciplinedRun {st : RetryState} {link : CommandLink} (h : Tracked st link)
    (scancodes : List UInt8)
    : DisciplinedRun scancodes st ↔ LastCommandRun scancodes st := by
  induction scancodes generalizing st link with
  | nil => exact Iff.rfl
  | cons scancode rest ih =>
      obtain ⟨disciplined, tracked⟩ := h.step scancode
      constructor
      · rintro ⟨now, later⟩
        have last := disciplined.mp now
        exact ⟨last, (ih (tracked last)).mp later⟩
      · rintro ⟨now, later⟩
        exact ⟨disciplined.mpr now, (ih (tracked now)).mpr later⟩

/-- Commands are given up as they should exactly in the runs where a give-up finds three RESENDs for
its own byte and no command behind.
-/
theorem retransmission_disciplined (commandBlock charBlock : Nat → UInt8)
    (scancodes : List UInt8)
    : DisciplinedRun scancodes (RetryState.start commandBlock charBlock)
      ↔ LastCommandRun scancodes (RetryState.start commandBlock charBlock) :=
  (start_tracked commandBlock charBlock).disciplinedRun scancodes

/-- Three RESENDs give the first command up, and the second one is not sent. -/
theorem retransmission_stops
    : ¬ ∀ scancodes : List UInt8,
        DisciplinedRun scancodes (RetryState.start (fun _ => 0) (fun _ => 0)) := by
  intro disciplined
  have third := (disciplined (List.replicate 3 kbdRetResend)).2.2.1
  have writes := (third.next (by decide +kernel) (by decide +kernel)).1
  exact absurd writes (by decide +kernel)

end DeadKernel
