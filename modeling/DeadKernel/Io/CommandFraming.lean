import DeadKernel.Io.CommandLink
import Mathlib.Data.List.Infix

/-! Whole commands in the queue of the keyboard driver. -/

namespace DeadKernel

/-- A concatenation of commands, each with its argument behind it. -/
def wholeCommands : List UInt8 → Bool
  | [] => true
  | [_] => false
  | cmd :: arg :: rest => takesArgument cmd && ! takesArgument arg && wholeCommands rest

/-- Whole commands, behind an argument whose command is sent already. -/
def framed : List UInt8 → Bool
  | [] => true
  | first :: rest =>
      wholeCommands (first :: rest) || (! takesArgument first && wholeCommands rest)

theorem wholeCommands_cons_cons (cmd arg : UInt8) (rest : List UInt8)
    : wholeCommands (cmd :: arg :: rest) = true
      ↔ takesArgument cmd = true ∧ takesArgument arg = false ∧ wholeCommands rest = true := by
  simp only [wholeCommands, Bool.and_eq_true, Bool.not_eq_true', and_assoc]

/-- Commands are queued behind whole commands. By induction, two bytes at a time. -/
theorem wholeCommands_append {contents added : List UInt8} (h : wholeCommands contents = true)
    : wholeCommands (contents ++ added) = wholeCommands added := by
  induction contents using wholeCommands.induct with
  | case1 => rfl
  | case2 byte => exact absurd h Bool.false_ne_true
  | case3 cmd arg rest ih =>
      obtain ⟨command, argument, later⟩ := (wholeCommands_cons_cons cmd arg rest).mp h
      rw [List.cons_append, List.cons_append, wholeCommands, command, argument, ih later]
      rfl

theorem framed_cons (first : UInt8) (rest : List UInt8)
    : framed (first :: rest) = true
      ↔ wholeCommands (first :: rest) = true
        ∨ takesArgument first = false ∧ wholeCommands rest = true := by
  simp only [framed, Bool.or_eq_true, Bool.and_eq_true, Bool.not_eq_true']

theorem framed_of_whole {contents : List UInt8} (h : wholeCommands contents = true)
    : framed contents = true := by
  cases contents with
  | nil => rfl
  | cons first rest => exact (framed_cons first rest).mpr (Or.inl h)

/-- A whole command behind framed contents. -/
theorem framed_append {contents : List UInt8} (h : framed contents = true) {cmd arg : UInt8}
    (command : takesArgument cmd = true) (argument : takesArgument arg = false)
    : framed (contents ++ [cmd, arg]) = true := by
  have whole : wholeCommands [cmd, arg] = true :=
    (wholeCommands_cons_cons cmd arg []).mpr ⟨command, argument, rfl⟩
  cases contents with
  | nil => exact framed_of_whole whole
  | cons first rest =>
      rcases (framed_cons first rest).mp h with both | ⟨lone, later⟩
      · apply framed_of_whole
        rw [wholeCommands_append both]
        exact whole
      · apply (framed_cons first (rest ++ [cmd, arg])).mpr
        refine Or.inr ⟨lone, ?_⟩
        rw [wholeCommands_append later]
        exact whole

/-- Whole commands begin with one. -/
theorem wholeCommands_cons {first : UInt8} {rest : List UInt8}
    (h : wholeCommands (first :: rest) = true)
    : takesArgument first = true
      ∧ ∃ arg later, rest = arg :: later ∧ takesArgument arg = false
        ∧ wholeCommands later = true := by
  cases rest with
  | nil => exact absurd h Bool.false_ne_true
  | cons arg later =>
      obtain ⟨command, argument, whole⟩ := (wholeCommands_cons_cons first arg later).mp h
      exact ⟨command, arg, later, rfl, argument, whole⟩

/-- A command without its argument is not framed, whatever is in front of it. -/
theorem not_framed_append {contents : List UInt8} (h : framed contents = true) {cmd : UInt8}
    (command : takesArgument cmd = true)
    : ¬ framed (contents ++ [cmd]) = true := by
  have bare : ¬ wholeCommands [cmd] = true := Bool.false_ne_true
  cases contents with
  | nil =>
      intro alone
      rcases (framed_cons cmd []).mp alone with whole | ⟨argument, -⟩
      · exact bare whole
      · exact absurd (command.symm.trans argument) (by decide)
  | cons first rest =>
      intro longer
      rcases (framed_cons first rest).mp h with both | ⟨lone, later⟩
      · obtain ⟨starts, -⟩ := wholeCommands_cons both
        rcases (framed_cons first (rest ++ [cmd])).mp longer with whole | ⟨argument, -⟩
        · rw [← List.cons_append, wholeCommands_append both] at whole
          exact bare whole
        · exact absurd (starts.symm.trans argument) (by decide)
      · rcases (framed_cons first (rest ++ [cmd])).mp longer with whole | ⟨-, whole⟩
        · obtain ⟨starts, -⟩ := wholeCommands_cons whole
          exact absurd (starts.symm.trans lone) (by decide)
        · rw [wholeCommands_append later] at whole
          exact bare whole

/-- An ACK takes one byte off. -/
theorem framed_tail {contents : List UInt8} (h : framed contents = true)
    : framed contents.tail = true := by
  cases contents with
  | nil => rfl
  | cons first rest =>
      rcases (framed_cons first rest).mp h with both | ⟨-, later⟩
      · obtain ⟨-, arg, later, rfl, argument, whole⟩ := wholeCommands_cons both
        exact (framed_cons arg later).mpr (Or.inr ⟨argument, whole⟩)
      · exact framed_of_whole later

/-- Giving up takes the rest of a command off. -/
theorem framed_dropCommand {contents : List UInt8} (h : framed contents = true)
    : framed (dropCommand contents) = true := by
  cases contents with
  | nil => rfl
  | cons first rest =>
      rw [dropCommand]
      rcases (framed_cons first rest).mp h with both | ⟨lone, later⟩
      · obtain ⟨starts, arg, later, rfl, -, whole⟩ := wholeCommands_cons both
        rw [if_pos starts]
        exact framed_of_whole whole
      · rw [lone]
        exact framed_of_whole later

-----------------------------------------------------------------------------------------
-- One interrupt
-----------------------------------------------------------------------------------------

theorem byte_not_command (ledState : KeyboardLEDState) : takesArgument ledState.byte = false := by
  rcases ledState with ⟨_ | _, _ | _, _ | _⟩ <;> rfl

section Link

variable {link : CommandLink}

theorem CommandLink.lockKey_framed (h : framed link.contents = true)
    (fits : link.contents.length ≤ keyboardCommandBufferSize) (ledState : KeyboardLEDState)
    : framed (link.lockKey ledState).contents = true
      ↔ link.contents.length ≠ keyboardCommandBufferSize - 1 := by
  have command : takesArgument kbdCmdSetLeds = true := rfl
  rw [CommandLink.lockKey_contents]
  by_cases both : link.contents.length + 1 < keyboardCommandBufferSize
  · rw [if_pos both]
    exact iff_of_true (framed_append h command (byte_not_command ledState)) (by omega)
  rw [if_neg both]
  by_cases one : link.contents.length < keyboardCommandBufferSize
  · rw [if_pos one]
    exact iff_of_false (not_framed_append h command) (by omega)
  · rw [if_neg one]
    exact iff_of_true h (by simp only [keyboardCommandBufferSize] at *; omega)

/-- One interrupt keeps the queue framed, unless it is a lock key that finds one free place. -/
theorem CommandLink.handle_framed (h : framed link.contents = true)
    (fits : link.contents.length ≤ keyboardCommandBufferSize) (scancode : UInt8)
    : framed (link.handle scancode).contents = true
      ↔ (isLockKey scancode = true → link.contents.length ≠ keyboardCommandBufferSize - 1) := by
  rw [isLockKey_iff scancode link.ledState, CommandLink.handle]
  cases toggledLock scancode link.ledState with
  | some ledState =>
      have pressed : ∃ toggled, some ledState = some toggled := ⟨ledState, rfl⟩
      simp only [CommandLink.lockKey_framed h fits ledState, pressed, true_implies]
  | none =>
      have other : ¬ ∃ toggled, (none : Option KeyboardLEDState) = some toggled := by
        rintro ⟨toggled, same⟩
        exact Option.some_ne_none _ same.symm
      refine iff_of_true ?_ (fun pressed => absurd pressed other)
      dsimp only
      split
      · rw [CommandLink.resend]
        split
        · exact framed_dropCommand h
        · exact h
      split
      · rw [CommandLink.ack]
        dsimp only
        split
        · exact framed_tail h
        · exact framed_tail h
      · exact h

end Link

-----------------------------------------------------------------------------------------
-- Runs
-----------------------------------------------------------------------------------------

/-- No lock key of a run finds exactly one free place in the queue. -/
def LockKeysFit : List UInt8 → Keyboard → Prop
  | [], _ => True
  | scancode :: rest, kbd =>
      (isLockKey scancode = true → kbd.commandBuffer.count ≠ keyboardCommandBufferSize - 1)
        ∧ LockKeysFit rest (keyboardHandler scancode kbd)

/-- The queue is framed after every interrupt exactly when all lock keys fit. By induction over
the interrupts, along the link that the driver simulates.
-/
theorem Drives.framed_run {kbd : Keyboard} {link : CommandLink} (h : Drives kbd link)
    (start : framed link.contents = true) (scancodes : List UInt8)
    : (∀ earlier, earlier <+: scancodes
        → framed (cyclicBufferContents (keyboardRun earlier kbd).commandBuffer) = true)
      ↔ LockKeysFit scancodes kbd := by
  have now : framed (cyclicBufferContents kbd.commandBuffer) = true := by
    rw [h.contents.contents_eq]
    exact start
  induction scancodes generalizing kbd link with
  | nil =>
      refine iff_of_true (fun earlier before => ?_) trivial
      rw [List.prefix_nil.mp before]
      exact now
  | cons scancode rest ih =>
      have next := h.keyboardHandler scancode
      have one : framed (cyclicBufferContents
            (DeadKernel.keyboardHandler scancode kbd).commandBuffer) = true
          ↔ (isLockKey scancode = true
            → kbd.commandBuffer.count ≠ keyboardCommandBufferSize - 1) := by
        rw [next.contents.contents_eq, h.contents.count]
        exact CommandLink.handle_framed start h.contents.fits scancode
      have later (whole : framed (cyclicBufferContents
          (DeadKernel.keyboardHandler scancode kbd).commandBuffer) = true) := by
        refine ih next ?_ whole
        rwa [next.contents.contents_eq] at whole
      constructor
      · intro all
        have whole := all [scancode] (List.cons_prefix_cons.mpr ⟨rfl, List.nil_prefix⟩)
        refine ⟨one.mp whole, (later whole).mp (fun earlier before => ?_)⟩
        exact all (scancode :: earlier) (List.cons_prefix_cons.mpr ⟨rfl, before⟩)
      · rintro ⟨fits, restFits⟩ earlier before
        cases earlier with
        | nil => exact now
        | cons first earlier =>
            obtain ⟨rfl, inner⟩ := List.cons_prefix_cons.mp before
            exact (later (one.mpr fits)).mpr restFits earlier inner

/-- Commands stay whole in the queue exactly when no lock key finds one free place in it. -/
theorem commands_stay_whole (commandBlock charBlock : Nat → UInt8) (scancodes : List UInt8)
    : (∀ earlier, earlier <+: scancodes
        → framed (cyclicBufferContents
            (keyboardRun earlier (initKeyboard commandBlock charBlock)).commandBuffer) = true)
      ↔ LockKeysFit scancodes (initKeyboard commandBlock charBlock) :=
  (initKeyboard_drives commandBlock charBlock).framed_run (by decide) scancodes

/-- One ACK and six lock keys leave a command without its argument. -/
theorem commands_not_whole
    : ¬ ∀ scancodes : List UInt8, framed (cyclicBufferContents
        (keyboardRun scancodes (initKeyboard (fun _ => 0) (fun _ => 0))).commandBuffer) = true :=
  fun whole => absurd (whole (kbdRetAck :: List.replicate 6 0x3a)) (by decide +kernel)

end DeadKernel
