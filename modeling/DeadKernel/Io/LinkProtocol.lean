import DeadKernel.Io.CommandLink

/-! The protocol between the keyboard driver and the keyboard: a byte is sent, and the next one
follows its acknowledgement.
-/

namespace DeadKernel

/-- The driver with what the keyboard saw of it. `waiting` says that the last byte written has
no ACK or RESEND yet, `queued` holds the bytes that entered the command queue and `acknowledged`
those that were waiting when an ACK came, both in order.
-/
structure LinkState where
  keyboard : Keyboard
  waiting : Bool
  queued : List UInt8
  acknowledged : List UInt8

def LinkState.contents (st : LinkState) : List UInt8 :=
  cyclicBufferContents st.keyboard.commandBuffer

def isReply (scancode : UInt8) : Bool := scancode = kbdRetAck || scancode = kbdRetResend

/-- The bytes of a lock key's command for which the queue has room. -/
def entering (scancode : UInt8) (kbd : Keyboard) : List UInt8 :=
  match toggledLock scancode kbd.ledState with
  | some ledState =>
      [kbdCmdSetLeds, ledState.byte].take (keyboardCommandBufferSize - kbd.commandBuffer.count)
  | none => []

/-- Whether `kbd'` has written a byte since `kbd`. -/
def wrote (kbd kbd' : Keyboard) : Bool := kbd.port.length < kbd'.port.length

/-- One interrupt. An ACK is for the byte that was written last. -/
def LinkState.step (scancode : UInt8) (st : LinkState) : LinkState :=
  let keyboard := keyboardHandler scancode st.keyboard
  { keyboard
    waiting := wrote st.keyboard keyboard || (st.waiting && ! isReply scancode)
    queued := st.queued ++ entering scancode st.keyboard
    acknowledged :=
      if scancode = kbdRetAck ∧ st.waiting = true then
        st.acknowledged ++ st.keyboard.port.head?.toList
      else st.acknowledged }

/-- After `initKeyboard`, which has written the first byte. -/
def LinkState.start (commandBlock charBlock : Nat → UInt8) : LinkState :=
  let keyboard := initKeyboard commandBlock charBlock
  { keyboard
    waiting := true
    queued := cyclicBufferContents keyboard.commandBuffer
    acknowledged := [] }

/-- What the protocol asks of one interrupt: the byte it writes is the front of the queue, no
other byte waits then, and the bytes queued are those acknowledged and those still in the queue.
-/
structure LawfulStep (scancode : UInt8) (st : LinkState) : Prop where
  front : wrote st.keyboard (st.step scancode).keyboard = true
    → (st.step scancode).contents ≠ []
      ∧ (st.step scancode).contents.head? = (st.step scancode).keyboard.port.head?
  quiet : wrote st.keyboard (st.step scancode).keyboard = true → st.waiting = true
    → isReply scancode = true
  delivered : (st.step scancode).acknowledged ++ (st.step scancode).contents
    = (st.step scancode).queued

def LawfulRun : List UInt8 → LinkState → Prop
  | [], _ => True
  | scancode :: rest, st => LawfulStep scancode st ∧ LawfulRun rest (st.step scancode)

/-- A lock key finds no byte waiting. A RESEND finds a byte to send again, and after two of them
nothing to give up.
-/
structure Orderly (scancode : UInt8) (st : LinkState) : Prop where
  lock : isLockKey scancode = true → st.waiting = false
  resend : scancode = kbdRetResend
    → (st.keyboard.resendCounter < 2 ↔ 0 < st.keyboard.commandBuffer.count)

def OrderlyRun : List UInt8 → LinkState → Prop
  | [], _ => True
  | scancode :: rest, st => Orderly scancode st ∧ OrderlyRun rest (st.step scancode)

-----------------------------------------------------------------------------------------
-- What the link writes
-----------------------------------------------------------------------------------------

theorem CommandLink.offer_port (byte : UInt8) (link : CommandLink)
    : (link.offer byte).port = link.port := by
  rw [CommandLink.offer]
  split
  · rfl
  · rfl

/-- `send` writes the front of the queue when there is one. -/
theorem CommandLink.send_front {link : CommandLink} (some : link.contents ≠ []) (tmp : UInt8)
    : (link.send tmp).port.head? = link.contents.head? := by
  obtain ⟨first, rest, same⟩ := List.exists_cons_of_ne_nil some
  simp only [CommandLink.send, same, List.headD_cons, List.head?_cons]

theorem CommandLink.lockKey_port (link : CommandLink) (ledState : KeyboardLEDState)
    : (link.lockKey ledState).port
      = (link.lockKey ledState).contents.headD 0 :: link.port := by
  simp only [CommandLink.lockKey, CommandLink.send, CommandLink.offer_port]

/-- Either something was queued before, or the command is now. -/
theorem CommandLink.lockKey_some (link : CommandLink) (ledState : KeyboardLEDState)
    : (link.lockKey ledState).contents ≠ [] := by
  rw [CommandLink.lockKey_entering]
  cases link.contents with
  | nil => exact List.cons_ne_nil kbdCmdSetLeds [ledState.byte]
  | cons first rest => exact List.cons_ne_nil first _

theorem CommandLink.ack_contents (link : CommandLink)
    : link.ack.contents = link.contents.tail := by
  simp only [CommandLink.ack]
  split
  · rfl
  · rfl

/-- An ACK writes the next byte when there is one. -/
theorem CommandLink.ack_writes (link : CommandLink)
    : link.port.length < link.ack.port.length ↔ link.contents.tail ≠ [] := by
  simp only [CommandLink.ack]
  split
  · exact iff_of_false (Nat.lt_irrefl _) (not_not_intro ‹_›)
  · exact iff_of_true (Nat.lt_succ_self link.port.length) ‹_›

theorem CommandLink.ack_front {link : CommandLink} (some : link.contents.tail ≠ [])
    : link.ack.port.head? = link.ack.contents.head? := by
  simp only [CommandLink.ack, if_neg some]
  exact CommandLink.send_front some 0

theorem dropCommand_length_lt {contents : List UInt8} (some : contents ≠ [])
    : (dropCommand contents).length < contents.length := by
  obtain ⟨first, rest, rfl⟩ := List.exists_cons_of_ne_nil some
  rw [dropCommand, List.length_cons]
  split
  · rw [List.length_tail]
    omega
  · exact Nat.lt_succ_self rest.length

-----------------------------------------------------------------------------------------
-- One interrupt
-----------------------------------------------------------------------------------------

/-- A byte waits as long as the queue is not empty, and it is the one at its front. -/
structure Settled (st : LinkState) (link : CommandLink) : Prop where
  drives : Drives st.keyboard link
  waiting : st.waiting = true ↔ link.contents ≠ []
  front : st.waiting = true → link.port.head? = link.contents.head?
  delivered : st.acknowledged ++ link.contents = st.queued

theorem isReply_of_isLockKey {scancode : UInt8} (pressed : isLockKey scancode = true)
    : isReply scancode = false := by
  simp only [isLockKey, Bool.or_eq_true, decide_eq_true_eq] at pressed
  rcases pressed with (rfl | rfl) | rfl <;> rfl

theorem not_ack_of_isLockKey {scancode : UInt8} (pressed : isLockKey scancode = true)
    : scancode ≠ kbdRetAck := by
  rintro rfl
  exact absurd pressed (by decide)

section Settled

variable {st : LinkState} {link : CommandLink} {scancode : UInt8}

theorem Settled.contents_step (h : Settled st link) (scancode : UInt8)
    : (st.step scancode).contents = (link.handle scancode).contents :=
  (h.drives.keyboardHandler scancode).contents.contents_eq

theorem Settled.wrote_step (h : Settled st link) (scancode : UInt8)
    : wrote st.keyboard (st.step scancode).keyboard = true
      ↔ link.port.length < (link.handle scancode).port.length := by
  have next := (h.drives.keyboardHandler scancode).port
  simp only [wrote, LinkState.step, h.drives.port, next, decide_eq_true_eq]

theorem Settled.waiting_step (h : Settled st link) (scancode : UInt8)
    : (st.step scancode).waiting = true
      ↔ link.port.length < (link.handle scancode).port.length
        ∨ st.waiting = true ∧ isReply scancode = false := by
  rw [← h.wrote_step scancode]
  simp only [LinkState.step, Bool.or_eq_true, Bool.and_eq_true, Bool.not_eq_true']

/-- An interrupt that leaves a settled state was lawful, unless it interfered. -/
theorem Settled.lawful (h : Settled st link)
    (next : Settled (st.step scancode) (link.handle scancode))
    (quiet : link.port.length < (link.handle scancode).port.length → st.waiting = true
      → isReply scancode = true)
    : LawfulStep scancode st where
  front writes := by
    have longer := (h.wrote_step scancode).mp writes
    have waits := (h.waiting_step scancode).mpr (Or.inl longer)
    rw [h.contents_step, next.drives.port]
    exact ⟨next.waiting.mp waits, (next.front waits).symm⟩
  quiet writes := quiet ((h.wrote_step scancode).mp writes)
  delivered := by
    rw [h.contents_step]
    exact next.delivered

/-- A lock key writes at once, so that nothing may wait. -/
theorem Settled.lockKey (h : Settled st link) (pressed : isLockKey scancode = true)
    : (LawfulStep scancode st ↔ Orderly scancode st)
      ∧ (Orderly scancode st → Settled (st.step scancode) (link.handle scancode)) := by
  obtain ⟨ledState, toggled⟩ := (isLockKey_iff scancode link.ledState).mp pressed
  have handled : link.handle scancode = link.lockKey ledState := by
    rw [CommandLink.handle, toggled]
  have some := link.lockKey_some ledState
  have longer : link.port.length < (link.handle scancode).port.length := by
    rw [handled, CommandLink.lockKey_port]
    exact Nat.lt_succ_self link.port.length
  have settled : Settled (st.step scancode) (link.handle scancode) := by
    refine ⟨h.drives.keyboardHandler scancode, ?_, fun _ => ?_, ?_⟩
    · rw [h.waiting_step]
      exact iff_of_true (Or.inl longer) (handled ▸ some)
    · obtain ⟨first, rest, same⟩ := List.exists_cons_of_ne_nil some
      rw [handled, CommandLink.lockKey_port, same]
      rfl
    · simp only [LinkState.step, entering, h.drives.ledState, toggled, h.drives.contents.count,
        not_ack_of_isLockKey pressed, false_and, if_false]
      rw [handled, CommandLink.lockKey_entering, ← List.append_assoc, h.delivered]
  refine ⟨⟨fun lawful => ⟨fun _ => ?_, fun resend => ?_⟩, fun orderly => ?_⟩, fun _ => settled⟩
  · by_contra waits
    have reply := lawful.quiet ((h.wrote_step scancode).mpr longer)
      (eq_true_of_ne_false waits)
    exact absurd (reply.symm.trans (isReply_of_isLockKey pressed)) (by decide)
  · subst resend
    exact absurd pressed (by decide)
  · refine h.lawful settled (fun _ waits => ?_)
    exact absurd (waits.symm.trans (orderly.lock pressed)) (by decide)

theorem toggledLock_eq_none (other : isLockKey scancode = false) (ledState : KeyboardLEDState)
    : toggledLock scancode ledState = none := by
  by_contra some
  obtain ⟨toggled, same⟩ := Option.ne_none_iff_exists'.mp some
  have pressed := (isLockKey_iff scancode ledState).mpr ⟨toggled, same⟩
  exact absurd (pressed.symm.trans other) (by decide)

/-- Interrupts other than lock keys queue nothing. -/
theorem LinkState.queued_step (st : LinkState) (other : isLockKey scancode = false)
    : (st.step scancode).queued = st.queued := by
  simp only [LinkState.step, entering, toggledLock_eq_none other, List.append_nil]

theorem Settled.orderly_resend (h : Settled st link)
    : Orderly kbdRetResend st ↔ (link.resendCounter < 2 ↔ link.contents ≠ []) := by
  have count : 0 < st.keyboard.commandBuffer.count ↔ link.contents ≠ [] := by
    rw [h.drives.contents.count]
    exact List.length_pos_iff
  rw [← h.drives.resendCounter, ← count]
  refine ⟨fun orderly => orderly.resend rfl, fun counted => ⟨fun pressed => ?_, fun _ => counted⟩⟩
  exact absurd pressed (by decide)

/-- A RESEND needs a byte to send again; the third one must have nothing to give up. -/
theorem Settled.resend (h : Settled st link)
    : (LawfulStep kbdRetResend st ↔ Orderly kbdRetResend st)
      ∧ (Orderly kbdRetResend st
        → Settled (st.step kbdRetResend) (link.handle kbdRetResend)) := by
  have acknowledged : (st.step kbdRetResend).acknowledged = st.acknowledged := rfl
  have queued : (st.step kbdRetResend).queued = st.queued := st.queued_step rfl
  have next := h.drives.keyboardHandler kbdRetResend
  have waiting := h.waiting_step kbdRetResend
  rw [h.orderly_resend]
  by_cases third : 2 ≤ link.resendCounter
  · have handled : link.handle kbdRetResend
        = { link with contents := dropCommand link.contents, resendCounter := 0 } :=
      if_pos third
    have silent : ¬ link.port.length < (link.handle kbdRetResend).port.length := by
      rw [handled]
      exact Nat.lt_irrefl _
    have idle : ¬ (st.step kbdRetResend).waiting = true := by
      rw [waiting]
      exact fun waits => waits.elim silent (fun both => absurd both.2 (by decide))
    have settled (empty : link.contents = [])
        : Settled (st.step kbdRetResend) (link.handle kbdRetResend) := by
      have left : (link.handle kbdRetResend).contents = [] := by
        rw [handled, empty]
        rfl
      refine ⟨next, iff_of_false idle (not_not_intro left), fun waits => absurd waits idle, ?_⟩
      rw [acknowledged, queued, left, ← h.delivered, empty]
    have orderly_iff : (link.resendCounter < 2 ↔ link.contents ≠ []) ↔ link.contents = [] := by
      rw [iff_false_left (Nat.not_lt.mpr third), not_not]
    rw [orderly_iff]
    refine ⟨⟨fun lawful => ?_, fun empty => ?_⟩, settled⟩
    · by_contra some
      have whole := lawful.delivered
      rw [h.contents_step, acknowledged, queued, ← h.delivered, handled] at whole
      have same := List.append_cancel_left whole
      exact absurd (congrArg List.length same) (Nat.ne_of_lt (dropCommand_length_lt some))
    · exact h.lawful (settled empty) (fun writes => absurd writes silent)
  · have handled : link.handle kbdRetResend
        = CommandLink.send 0 { link with resendCounter := (link.resendCounter + 1) % 256 } :=
      if_neg third
    have longer : link.port.length < (link.handle kbdRetResend).port.length := by
      rw [handled]
      exact Nat.lt_succ_self link.port.length
    have settled (some : link.contents ≠ [])
        : Settled (st.step kbdRetResend) (link.handle kbdRetResend) := by
      refine ⟨next, ?_, fun _ => ?_, ?_⟩
      · rw [waiting, handled]
        exact iff_of_true (Or.inl (handled ▸ longer)) some
      · rw [handled]
        exact CommandLink.send_front some 0
      · rw [acknowledged, queued, handled]
        exact h.delivered
    rw [iff_true_left (Nat.not_le.mp third)]
    refine ⟨⟨fun lawful => ?_, fun some => ?_⟩, settled⟩
    · have front := (lawful.front ((h.wrote_step kbdRetResend).mpr longer)).1
      rw [h.contents_step, handled] at front
      exact front
    · exact h.lawful (settled some) (fun _ _ => rfl)

/-- An ACK always finds its byte at the front of the queue. -/
theorem Settled.ack (h : Settled st link)
    : LawfulStep kbdRetAck st ∧ Settled (st.step kbdRetAck) (link.handle kbdRetAck) := by
  have queued : (st.step kbdRetAck).queued = st.queued := st.queued_step rfl
  have next := h.drives.keyboardHandler kbdRetAck
  have contents : (link.handle kbdRetAck).contents = link.contents.tail := link.ack_contents
  have settled : Settled (st.step kbdRetAck) (link.handle kbdRetAck) := by
    have waiting : (st.step kbdRetAck).waiting = true ↔ link.contents.tail ≠ [] := by
      rw [h.waiting_step, or_iff_left (fun both => absurd both.2 (by decide))]
      exact link.ack_writes
    refine ⟨next, contents ▸ waiting, fun waits => ?_, ?_⟩
    · exact CommandLink.ack_front (waiting.mp waits)
    · rw [contents, queued, ← h.delivered]
      cases same : link.contents with
      | nil =>
          have idle : (st.step kbdRetAck).acknowledged = st.acknowledged :=
            if_neg (fun both => h.waiting.mp both.2 same)
          rw [idle]
          rfl
      | cons first rest =>
          have waits : st.waiting = true := by
            rw [h.waiting, same]
            exact List.cons_ne_nil first rest
          have last := h.front waits
          rw [← h.drives.port, same] at last
          simp only [LinkState.step, waits, and_self, if_true, last, List.head?_cons,
            Option.toList_some, List.tail_cons, List.append_assoc, List.singleton_append]
  exact ⟨h.lawful settled (fun _ _ => rfl), settled⟩

/-- Other bytes are none of the link's business. -/
theorem Settled.other (h : Settled st link) (noLock : isLockKey scancode = false)
    (noReply : isReply scancode = false)
    : LawfulStep scancode st ∧ Settled (st.step scancode) (link.handle scancode) := by
  have noAck : scancode ≠ kbdRetAck := by
    rintro rfl
    exact absurd noReply (by decide)
  have noResend : scancode ≠ kbdRetResend := by
    rintro rfl
    exact absurd noReply (by decide)
  have handled : link.handle scancode = link := by
    rw [CommandLink.handle, toggledLock_eq_none noLock]
    simp only [if_neg noResend, if_neg noAck]
  have silent : ¬ link.port.length < (link.handle scancode).port.length := by
    rw [handled]
    exact Nat.lt_irrefl _
  have waiting : (st.step scancode).waiting = true ↔ st.waiting = true := by
    rw [h.waiting_step, or_iff_right silent, and_iff_left noReply]
  have settled : Settled (st.step scancode) (link.handle scancode) := by
    refine ⟨h.drives.keyboardHandler scancode, ?_, fun waits => ?_, ?_⟩
    · rw [waiting, handled]
      exact h.waiting
    · rw [handled]
      exact h.front (waiting.mp waits)
    · rw [handled, st.queued_step noLock, ← h.delivered]
      simp only [LinkState.step, noAck, false_and, if_false]
  exact ⟨h.lawful settled (fun writes => absurd writes silent), settled⟩

/-- A step is lawful exactly when it is orderly, and then the next state is settled again. -/
theorem Settled.step (h : Settled st link) (scancode : UInt8)
    : (LawfulStep scancode st ↔ Orderly scancode st)
      ∧ (Orderly scancode st → Settled (st.step scancode) (link.handle scancode)) := by
  by_cases resend : scancode = kbdRetResend
  · subst resend
    exact h.resend
  by_cases lock : isLockKey scancode = true
  · exact h.lockKey lock
  have orderly : Orderly scancode st :=
    ⟨fun pressed => absurd pressed lock, fun same => absurd same resend⟩
  by_cases ack : scancode = kbdRetAck
  · subst ack
    exact ⟨iff_of_true h.ack.1 orderly, fun _ => h.ack.2⟩
  · have noReply : isReply scancode = false := by
      simp only [isReply, ack, resend, decide_false, Bool.or_self]
    obtain ⟨lawful, settled⟩ := h.other (eq_false_of_ne_true lock) noReply
    exact ⟨iff_of_true lawful orderly, fun _ => settled⟩

end Settled

/-- The link after `initKeyboard` is settled: its first byte waits. -/
theorem start_settled (commandBlock charBlock : Nat → UInt8)
    : Settled (LinkState.start commandBlock charBlock) CommandLink.init where
  drives := initKeyboard_drives commandBlock charBlock
  waiting := iff_of_true rfl (List.cons_ne_nil _ _)
  front _ := rfl
  delivered := by
    have holds := (initKeyboard_drives commandBlock charBlock).contents
    simp only [LinkState.start, List.nil_append, holds.contents_eq]

/-- A run is lawful exactly when it is orderly. By induction over the interrupts. -/
theorem Settled.lawfulRun {st : LinkState} {link : CommandLink} (h : Settled st link)
    (scancodes : List UInt8)
    : LawfulRun scancodes st ↔ OrderlyRun scancodes st := by
  induction scancodes generalizing st link with
  | nil => exact Iff.rfl
  | cons scancode rest ih =>
      obtain ⟨lawful, settled⟩ := h.step scancode
      constructor
      · rintro ⟨now, later⟩
        have orderly := lawful.mp now
        exact ⟨orderly, (ih (settled orderly)).mp later⟩
      · rintro ⟨now, later⟩
        exact ⟨lawful.mpr now, (ih (settled now)).mpr later⟩

/-- Every byte is sent in order and acknowledged once, exactly in the runs that are orderly. -/
theorem keyboardLink_lawful (commandBlock charBlock : Nat → UInt8) (scancodes : List UInt8)
    : LawfulRun scancodes (LinkState.start commandBlock charBlock)
      ↔ OrderlyRun scancodes (LinkState.start commandBlock charBlock) :=
  (start_settled commandBlock charBlock).lawfulRun scancodes

/-- A lock key while the first byte waits sends that byte again. -/
theorem keyboardLink_not_lawful
    : ¬ ∀ scancodes : List UInt8,
        LawfulRun scancodes (LinkState.start (fun _ => 0) (fun _ => 0)) := by
  intro lawful
  have quiet := (lawful [0x3a]).1.quiet (by decide +kernel) rfl
  exact absurd quiet (by decide)

end DeadKernel
