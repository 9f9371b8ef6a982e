import DeadKernel.Userland.Shell

/-! What the shell does for a user: the keys edit a line, and a line is split into words, the first
of which names a command. The shell does this as long as at most 127 characters are pending
when a key stores; the first key that finds 128 stores behind the buffer.
-/

namespace DeadKernel

open Settling

-----------------------------------------------------------------------------------------
-- Sessions
-----------------------------------------------------------------------------------------

/-- The words of a line. -/
def wordsOf (line : List UInt8) : List (List UInt8) := runsOf [chr ' '] line

def commandOf (word : List UInt8) : Option Command :=
  Command.all.find? (fun command => command.name = word)

/-- What a command does with its arguments. -/
def Command.calls (creator : BitVec 32) (answers : Answers) (args : List (List UInt8))
    : Command → List ShellCall
  | .info => [.put (formatBytes ShellFormat.info.pieces)]
  | .getpid => [.put (numeral 10 answers.pid.toNat ++ [chr '\n'])]
  | .getring => [.put (numeral 10 answers.ring.toNat ++ [chr '\n'])]
  | .readmem =>
      match args with
      | first :: second :: _ =>
          [.memPrint (strtoi (some first) 16).1 (BitVec.ofInt 32 (clamp (partsOf second).value))]
      | _ => []
  | .echo => args.map (fun arg => .put (arg ++ [chr ' '])) ++ [.put [chr '\n']]
  | .lspci => [.listPci]
  | .shell =>
      if answers.pid ≠ creator then [.put (formatBytes ShellFormat.error.pieces)]
      else if answers.forked = -1 then [.fork]
      else if 0 < answers.forked.toInt then
        .fork :: List.replicate 15 .yield ++ [.mutexLock, .mutexUnlock]
      else
        [.fork, .mutexLock, .put (putText ShellFormat.child.pieces
          [⟨answers.pidBehind, []⟩, ⟨answers.forked, []⟩])]
  | .exit => []

/-- What a line does: at most 16 arguments count. -/
def lineCalls (creator : BitVec 32) (answers : Answers) (line : List UInt8) : List ShellCall :=
  match wordsOf line with
  | [] => []
  | word :: args =>
      match commandOf word with
      | some command => command.calls creator answers (args.take 16)
      | none => [.put (putText ShellFormat.notFound.pieces [⟨0, word⟩])]

/-- The line ends the session. -/
def exits (line : List UInt8) : Bool := (wordsOf line).head?.bind commandOf = some .exit

def promptText (pid : BitVec 32) : List UInt8 := putText ShellFormat.prompt.pieces [⟨pid, []⟩]

structure Session where
  line : List UInt8
  running : Bool
  calls : List ShellCall

/-- A key of a session. -/
def sessionKey (creator : BitVec 32) (answers : Answers) (ch : UInt8) (session : Session)
    : Session :=
  if ch = chr '\n' then
    { line := []
      running := session.running && ! exits session.line
      calls := session.calls ++ .put [ch] :: lineCalls creator answers session.line
        ++ [.put (promptText answers.pidBehind)] }
  else if ch = chr '\x08' then
    if session.line = [] then session
    else { session with line := session.line.dropLast, calls := session.calls ++ [.put [ch]] }
  else if ch = 0 then session
  else { session with line := session.line ++ [ch], calls := session.calls ++ [.put [ch]] }

def sessionLoop (creator : BitVec 32) : List (UInt8 × Answers) → Session → Session
  | [], session => session
  | (ch, answers) :: keys, session =>
      if session.running then sessionLoop creator keys (sessionKey creator answers ch session)
      else session

/-- The first lines on the screen, and an empty line. -/
def sessionStart (image : ShellImage) (pid semaphoreId : BitVec 32) : Session where
  line := []
  running := true
  calls :=
    [.mutexInit, .put (putText ShellFormat.pointer.pieces [⟨image.command, []⟩]),
      .put (putText ShellFormat.semaphore.pieces [⟨semaphoreId, []⟩]),
      .put (formatBytes ShellFormat.info.pieces), .put (promptText pid)]

/-- What follows the last key. -/
def leaveCalls (creator pid : BitVec 32) : List ShellCall :=
  [.put (formatBytes ShellFormat.exiting.pieces), .mutexUnlock]
    ++ if pid = creator then [.mutexFree] else []

/-- All that a session has done. -/
def sessionCalls (creator pid : BitVec 32) (session : Session) : List ShellCall :=
  session.calls ++ if session.running then [] else leaveCalls creator pid

/-- A key that stores. -/
def Stores (ch : UInt8) : Prop := ch ≠ chr '\x08' ∧ ch ≠ 0

/-- The buffer has room at every key that stores. -/
def Fits (creator : BitVec 32) : List (UInt8 × Answers) → Session → Prop
  | [], _ => True
  | (ch, answers) :: keys, session =>
      session.running = true →
        (Stores ch → session.line.length < 128)
          ∧ Fits creator keys (sessionKey creator answers ch session)

-----------------------------------------------------------------------------------------
-- The buffer and the literals
-----------------------------------------------------------------------------------------

/-- An address outside of the buffer of the shell. -/
def Outside (image : ShellImage) (address : BitVec 32) : Prop :=
  address.toNat < image.command.toNat ∨ image.command.toNat + 128 ≤ address.toNat

instance (image : ShellImage) (address : BitVec 32) : Decidable (Outside image address) :=
  inferInstanceAs (Decidable (_ ∨ _))

/-- Only the buffer has changed. -/
def BufferOnly (image : ShellImage) (memory memory' : CharMemory) : Prop :=
  ∀ address, Outside image address → memory' address = memory address

/-- Bytes that stand outside of the buffer. -/
structure LiteralAt (image : ShellImage) (memory : CharMemory) (address : BitVec 32)
    (bytes : List UInt8) : Prop where
  stands : BytesAt memory address bytes
  outside : ∀ k < bytes.length, Outside image (address + BitVec.ofNat 32 k)

/-- The literals of the shell are in place. -/
structure ShellLinked (image : ShellImage) (memory : CharMemory) : Prop where
  some_ : image.command ≠ 0
  room : image.command.toNat + 128 < 2 ^ 32
  space : LiteralAt image memory image.space [chr ' ', 0]
  name : ∀ command : Command, LiteralAt image memory (image.name command) (command.name ++ [0])
  format : ∀ format : ShellFormat,
    LiteralAt image memory (image.format format) (formatBytes format.pieces ++ [0])

section Buffer

variable {image : ShellImage} {memory memory' memory'' : CharMemory}

theorem BufferOnly.refl (memory : CharMemory) : BufferOnly image memory memory :=
  fun _ _ => rfl

theorem BufferOnly.trans (h : BufferOnly image memory memory')
    (h' : BufferOnly image memory' memory'')
    : BufferOnly image memory memory'' :=
  fun address outside => (h' address outside).trans (h address outside)

theorem LiteralAt.kept {address : BitVec 32} {bytes : List UInt8}
    (h : LiteralAt image memory address bytes) (same : BufferOnly image memory memory')
    : LiteralAt image memory' address bytes where
  stands := bytesAt_same h.stands fun k less => same _ (h.outside k less)
  outside := h.outside

theorem ShellLinked.kept (h : ShellLinked image memory) (same : BufferOnly image memory memory')
    : ShellLinked image memory' where
  some_ := h.some_
  room := h.room
  space := h.space.kept same
  name command := (h.name command).kept same
  format format := (h.format format).kept same

/-- `memset` writes its bytes only, by induction over them. -/
theorem memset_outside {dest address : BitVec 32} (val : UInt8) {len : Nat}
    (fits : dest.toNat + len < 2 ^ 32)
    (outside : address.toNat < dest.toNat ∨ dest.toNat + len ≤ address.toNat)
    : memset memory dest val len address = memory address := by
  induction len generalizing memory dest with
  | zero => rfl
  | succ len ih =>
      have next := toNat_next (by omega : dest.toNat + 1 < 2 ^ 32)
      rw [memset, ih (by omega) (by omega)]
      refine Function.update_of_ne ?_ _ _
      rintro rfl
      omega

end Buffer

-----------------------------------------------------------------------------------------
-- Output
-----------------------------------------------------------------------------------------

section Output

variable {image : ShellImage} {sh : Shell}

theorem shellFormat_whole (format : ShellFormat) : ∀ piece ∈ format.pieces, piece.Whole := by
  cases format <;> decide

theorem printf_settles (linked : ShellLinked image sh.memory) (format : ShellFormat)
    (args : List Argument) (matching : ArgsMatch sh.memory format.pieces args)
    : Settles (fun fuel => sh.printf image fuel format (args.map Argument.word))
        (sh.put (putText format.pieces args)) :=
  (putBy_whole (shellFormat_whole format) (linked.format format).stands matching).map
    (fun text => sh.put text)

/-- A letter alone puts its text. -/
theorem put_bare (letter : Letter) (arg : Argument)
    : (⟨none, false, 0, letter, zero_small⟩ : Spec).put arg = letter.printed arg := by
  simp [Spec.put, pad]

theorem putText_number (word : BitVec 32)
    : putText ShellFormat.number.pieces [⟨word, []⟩] = numeral 10 word.toNat ++ [chr '\n'] := by
  rw [putText, ShellFormat.pieces, bare, chunksOf, put_bare]
  rfl

theorem putText_word (arg : Argument)
    : putText ShellFormat.word.pieces [arg] = arg.string ++ [chr ' '] := by
  rw [putText, ShellFormat.pieces, bare, chunksOf, put_bare]
  rfl

/-- The argument of a `%s`. -/
theorem string_matches {memory : CharMemory} {p : BitVec 32} {text : List UInt8}
    (string : StringAt memory p text) (some_ : p ≠ 0) (measured : text.length < 128)
    : (⟨p, text⟩ : Argument).Matches memory .s :=
  fun _ => ⟨measured.trans (by decide), .inr ⟨some_, string.bytes, string.noNul⟩⟩

end Output

-----------------------------------------------------------------------------------------
-- Words
-----------------------------------------------------------------------------------------

section Words

variable {image : ShellImage} {memory : CharMemory}

/-- A pointer to a word in the buffer. -/
structure WordAt (memory : CharMemory) (p : BitVec 32) (word : List UInt8) : Prop where
  string : StringAt memory p word
  some_ : p ≠ 0
  short : word.length < 128

/-- The loop over the arguments takes the words up to the 16th, by induction over its rounds. It
writes in what is left of the line only.
-/
theorem takeArgs_settles (linked : ShellLinked image memory) (left : Nat) {st : Tokenizer}
    {text : List UInt8} (same : BufferOnly image memory st.memory)
    (placed : Placed st.memory st.backupString text)
    (first : image.command.toNat ≤ st.backupString.toNat)
    (last : st.backupString.toNat + text.length < image.command.toNat + 128)
    : ∃ args st', Settles (fun fuel => takeArgs image fuel left st) (args, st')
      ∧ List.Forall₂ (WordAt st'.memory) args ((wordsOf text).take left)
      ∧ ∀ address : BitVec 32,
        address.toNat < st.backupString.toNat
          ∨ st.backupString.toNat + text.length ≤ address.toNat →
        st'.memory address = st.memory address := by
  induction left generalizing st text with
  | zero =>
      refine ⟨[], st, .pure _, ?_, fun _ _ => rfl⟩
      rw [List.take_zero]
      exact .nil
  | succ left ih =>
      have space : StringAt st.memory image.space [chr ' '] :=
        ⟨(linked.kept same).space.stands, by decide⟩
      rcases strtok_place (if_pos rfl) placed space with
        ⟨none_, ends⟩ | ⟨run, rest, ret, st₁, runs, cuts, some_, token⟩
      · refine ⟨[], st, ?_, ?_, fun _ _ => rfl⟩
        · exact .bind ends (.pure _)
        · rw [wordsOf, none_, List.take_nil]
          exact .nil
      · have inside := token.inside
        have before := token.last
        have firstRet := token.first
        have same₁ : BufferOnly image memory st₁.memory := by
          refine same.trans fun address outside => token.kept address ?_
          rcases outside with low | high
          · exact .inl (by omega)
          · exact .inr (by omega)
        obtain ⟨args, st', takes, words, kept⟩ :=
          ih same₁ token.behind (by omega) (by omega)
        refine ⟨ret :: args, st', ?_, ?_, fun address outside => ?_⟩
        · refine .bind cuts ?_
          simp only [if_neg some_]
          exact .bind takes (.pure _)
        · rw [wordsOf, runs, List.take_succ_cons]
          exact .cons ⟨token.stays placed.fits kept, some_, by omega⟩ words
        · rw [kept address (by omega), token.kept address (by omega)]

/-- The comparisons find the command of a word. -/
theorem findCommand_settles {p : BitVec 32} {word : List UInt8}
    (linked : ShellLinked image memory) (string : StringAt memory p word)
    (commands : List Command)
    : Settles (fun fuel => findCommand image fuel memory p commands)
        (commands.find? (fun command => command.name = word)) := by
  induction commands with
  | nil => exact .pure none
  | cons command rest ih =>
      have name : StringAt memory (image.name command) command.name :=
        ⟨(linked.name command).stands, by cases command <;> decide⟩
      obtain ⟨difference, returns, zero⟩ := strcmp_spec string name
      have compared : Settles (fun fuel => strcmp memory fuel p (image.name command)) difference :=
        .of_le (word.length + 1) fun fuel enough => returns fuel enough
      refine .bind compared ?_
      by_cases same : word = command.name
      · rw [List.find?_cons_of_pos (by simp [same])]
        simp only [if_pos (zero.mpr same)]
        exact .pure _
      · rw [List.find?_cons_of_neg (by simpa using Ne.symm same)]
        simp only [if_neg (mt zero.mp same)]
        exact ih

end Words

-----------------------------------------------------------------------------------------
-- Commands
-----------------------------------------------------------------------------------------

section Commands

variable {image : ShellImage} {answers : Answers}

/-- The arguments of `echo`, by induction over them. -/
theorem echoArgs_settles {memory : CharMemory} {args : List (BitVec 32)}
    {words : List (List UInt8)} (linked : ShellLinked image memory)
    (at_ : List.Forall₂ (WordAt memory) args words) {sh : Shell} (same : sh.memory = memory)
    : Settles (fun fuel => echoArgs image fuel args sh)
        { sh with calls := sh.calls ++ (words.map (fun word => .put (word ++ [chr ' ']))
          ++ [.put [chr '\n']]) } := by
  induction at_ generalizing sh with
  | nil =>
      subst same
      exact printf_settles linked .newLine [] trivial
  | @cons arg word args words here _ ih =>
      have puts : Settles (fun fuel => sh.printf image fuel .word [arg])
          (sh.put (putText ShellFormat.word.pieces [⟨arg, word⟩])) := by
        subst same
        exact printf_settles linked .word [⟨arg, word⟩]
          ⟨string_matches here.string here.some_ here.short, trivial⟩
      rw [putText_word] at puts
      have rest := @ih (sh.put (word ++ [chr ' '])) same
      simp only [Shell.put, Shell.call, List.append_assoc, List.singleton_append] at rest
      exact .bind puts rest

theorem string_settles {memory : CharMemory} {p : BitVec 32} {text : List UInt8}
    (string : StringAt memory p text)
    : Settles (fun fuel => stringFrom memory fuel p) text :=
  .of_le (text.length + 1) fun _ enough => stringFrom_eq string.bytes string.noNul enough

/-- `atoi` does not come near the end of its index in a word. -/
theorem indexed_short {word : List UInt8} (short : word.length < 128)
    : (partsOf word).Indexed := by
  have spaces : (partsOf word).spaces ≤ word.length := (List.takeWhile_prefix _).length_le
  have digits : (partsOf word).digits.length ≤ word.length := by
    refine ((List.takeWhile_prefix _).length_le).trans ?_
    refine le_trans ?_ (List.dropWhile_sublist (fun c => c = chr ' ')).length_le
    split
    · exact (List.tail_sublist _).length_le
    · exact le_refl _
  have sign := Bool.toNat_le (partsOf word).signed
  intro count less _
  have count_ : (count : Int) ≤ 127 := by omega
  simp only [intMax]
  omega

/-- The branch of a command. -/
theorem performCommand_settles {args : List (BitVec 32)} {words : List (List UInt8)} {sh : Shell}
    (linked : ShellLinked image sh.memory) (at_ : List.Forall₂ (WordAt sh.memory) args words)
    (command : Command)
    : Settles (fun fuel => performCommand image answers fuel args sh command)
        { sh with
          running := sh.running && command ≠ .exit
          calls := sh.calls ++ command.calls sh.creator answers words } := by
  have number (word : BitVec 32) : Settles (fun fuel => sh.printf image fuel .number [word])
      (sh.put (numeral 10 word.toNat ++ [chr '\n'])) := by
    rw [← putText_number]
    exact printf_settles linked .number [⟨word, []⟩] ⟨matches_word _ _ (by decide), trivial⟩
  cases command with
  | info => simpa using! printf_settles linked .info [] trivial
  | getpid => simpa using! number answers.pid
  | getring => simpa using! number answers.ring
  | readmem =>
      cases at_ with
      | nil => simpa [Command.calls] using! Settles.pure sh
      | @cons p' str _ _ first rest =>
          cases rest with
          | nil => simpa [Command.calls] using! Settles.pure sh
          | @cons p word args _ second _ =>
              have count : atoi word = some (clamp (partsOf word).value) := by
                refine (atoi_eq word).1 (indexed_short ?_)
                exact second.short
              have read : Settles (fun fuel => (stringFrom sh.memory fuel p).bind atoi)
                  (clamp (partsOf word).value) := by
                refine .bind (string_settles second.string) ?_
                exact .congr (.pure _) 0 (fun _ _ => count)
              have dumps : Settles
                  (fun fuel => performCommand image answers fuel (p' :: p :: args) sh .readmem)
                  (sh.call (.memPrint (strtoi (some str) 16).1
                    (BitVec.ofInt 32 (clamp (partsOf word).value)))) :=
                .bind (string_settles first.string) (.bind read (.pure _))
              simpa [Command.calls] using! dumps
  | echo => simpa using! echoArgs_settles linked at_ rfl
  | lspci => simpa using! Settles.pure (sh.call .listPci)
  | shell =>
      simp only [performCommand, Command.calls]
      by_cases own : answers.pid = sh.creator
      · simp only [ne_eq, own, not_true_eq_false, if_false]
        by_cases failed : answers.forked = -1
        · simpa [failed] using! Settles.pure (sh.call .fork)
        · by_cases parent : 0 < answers.forked.toInt
          · simp only [if_neg failed, if_pos parent]
            have waits := Settles.pure (((List.range 15).foldl (fun sh _ => sh.call .yield)
              (sh.call .fork)).call .mutexLock |>.call .mutexUnlock)
            simpa [Shell.call, List.range, List.range.loop] using! waits
          · simp only [if_neg failed, if_neg parent]
            have puts := @printf_settles image ((sh.call .fork).call .mutexLock) linked .child
              [⟨answers.pidBehind, []⟩, ⟨answers.forked, []⟩]
              ⟨matches_word _ _ (by decide), matches_word _ _ (by decide), trivial⟩
            simpa [Shell.put, Shell.call] using! puts
      · simp only [ne_eq, own, not_false_eq_true, if_true]
        simpa using! printf_settles linked .error [] trivial
  | exit => simpa [Command.calls] using! Settles.pure { sh with running := false }

/-- What a line has done. -/
structure LineDone (image : ShellImage) (answers : Answers) (line : List UInt8) (sh sh' : Shell)
    : Prop where
  memory : BufferOnly image sh.memory sh'.memory
  ptr : sh'.ptr = sh.ptr
  running : sh'.running = (sh.running && ! exits line)
  creator : sh'.creator = sh.creator
  calls : sh'.calls = sh.calls ++ lineCalls sh.creator answers line

/-- A line is split and its command is performed. -/
theorem handleCommand_settles {sh : Shell} {line : List UInt8}
    (linked : ShellLinked image sh.memory) (string : StringAt sh.memory image.command line)
    (short : line.length < 128)
    : ∃ sh', Settles (fun fuel => handleCommand image answers fuel sh) sh'
      ∧ LineDone image answers line sh sh' := by
  have room := linked.room
  have reads := string_settles string
  by_cases empty : line.length = 0
  · obtain rfl : line = [] := List.length_eq_zero_iff.mp empty
    refine ⟨sh, ?_, .refl _, rfl, ?_, rfl, ?_⟩
    · exact .bind reads (.congr (.pure sh) 0 fun _ _ => if_pos rfl)
    · simp [exits, wordsOf, runsOf]
    · simp [lineCalls, wordsOf, runsOf]
  · have placed : Placed sh.memory image.command line := ⟨string, linked.some_, by omega⟩
    have space : StringAt sh.memory image.space [chr ' '] := ⟨linked.space.stands, by decide⟩
    rcases @strtok_place ⟨sh.memory, sh.backupString⟩ _ _ _ _ _ (if_neg linked.some_) placed
        space with
      ⟨none_, ends⟩ | ⟨run, rest, ret, st₁, runs, cuts, some_, token⟩
    · refine ⟨sh, ?_, .refl _, rfl, ?_, rfl, ?_⟩
      · refine .bind reads ?_
        simp only [if_neg empty]
        exact .bind ends (.congr (.pure sh) 0 fun _ _ => if_pos rfl)
      · simp [exits, wordsOf, none_]
      · simp [lineCalls, wordsOf, none_]
    · have inside := token.inside
      have before := token.last
      have first := token.first
      have same₁ : BufferOnly image sh.memory st₁.memory := by
        refine fun address outside => token.kept address ?_
        rcases outside with low | high
        · exact .inl (by omega)
        · exact .inr (by omega)
      obtain ⟨args, st', takes, words, kept⟩ :=
        takeArgs_settles linked 16 same₁ token.behind (by omega) (by omega)
      have same' : BufferOnly image sh.memory st'.memory := by
        refine same₁.trans fun address outside => kept address ?_
        rcases outside with low | high
        · exact .inl (by omega)
        · exact .inr (by omega)
      have linked' := linked.kept same'
      have finds := findCommand_settles linked' (token.stays placed.fits kept) Command.all
      let sh' : Shell := { sh with memory := st'.memory, backupString := st'.backupString }
      have done : ∃ sh'', Settles (fun fuel => match commandOf run with
            | some command => performCommand image answers fuel args sh' command
            | none => sh'.printf image fuel .notFound [ret]) sh''
          ∧ LineDone image answers line sh sh'' := by
        have parts : wordsOf line = run :: wordsOf rest := runs
        cases found : commandOf run with
        | some command =>
            refine ⟨_, @performCommand_settles image answers _ _ sh' linked' words command, same',
              rfl,
              ?_, rfl, ?_⟩
            · simp [exits, parts, found, sh']
            · simp [lineCalls, parts, found, sh']
        | none =>
            refine ⟨_, @printf_settles image sh' linked' .notFound [⟨ret, run⟩]
              ⟨string_matches (token.stays placed.fits kept) some_ (by omega), trivial⟩, same', rfl,
              ?_, rfl, ?_⟩
            · simp [exits, parts, found, sh', Shell.put, Shell.call]
            · simp only [lineCalls, parts, found]
              rfl
      obtain ⟨sh'', settles, done⟩ := done
      refine ⟨sh'', .bind reads ?_, done⟩
      simp only [if_neg empty]
      refine .bind cuts ?_
      simp only [if_neg some_]
      exact .bind takes (.bind finds settles)

end Commands

-----------------------------------------------------------------------------------------
-- Keys
-----------------------------------------------------------------------------------------

/-- The state of the shell shows a session. -/
structure ShowsSession (image : ShellImage) (creator : BitVec 32) (sh : Shell) (session : Session)
    : Prop where
  linked : ShellLinked image sh.memory
  ptr : sh.ptr = image.command + BitVec.ofNat 32 session.line.length
  fits : session.line.length ≤ 128
  bytes : BytesAt sh.memory image.command session.line
  noNul : 0 ∉ session.line
  running : sh.running = session.running
  creator : sh.creator = creator
  calls : sh.calls = session.calls

section Keys

variable {image : ShellImage} {creator : BitVec 32} {answers : Answers} {sh : Shell}
  {session : Session}

/-- The number of an address in the buffer. -/
theorem ShellLinked.number {memory : CharMemory} (linked : ShellLinked image memory) {k : Nat}
    (le : k ≤ 128)
    : (image.command + BitVec.ofNat 32 k).toNat = image.command.toNat + k := by
  have room := linked.room
  rw [BitVec.toNat_add, BitVec.toNat_ofNat, Nat.add_mod_mod]
  exact Nat.mod_eq_of_lt (by omega)

/-- A character is put behind the line. -/
theorem ShowsSession.store (rep : ShowsSession image creator sh session)
    (less : session.line.length < 128) (c : UInt8)
    : BytesAt (sh.store c).memory image.command (session.line ++ [c])
      ∧ BufferOnly image sh.memory (sh.store c).memory := by
  have place := rep.linked.number rep.fits
  refine ⟨bytesAt_append.mpr ⟨bytesAt_same rep.bytes fun k below => ?_, ?_, trivial⟩, ?_⟩
  · refine Function.update_of_ne (fun same => ?_) _ _
    have numbers := congrArg BitVec.toNat same
    rw [rep.ptr, place, rep.linked.number (by omega)] at numbers
    omega
  · rw [← rep.ptr]
    exact Function.update_self _ _ _
  · refine fun address outside => Function.update_of_ne ?_ _ _
    rintro rfl
    rw [Outside, rep.ptr, place] at outside
    omega

/-- What a key does to a shell that shows a session. -/
structure KeyDone (image : ShellImage) (creator : BitVec 32) (sh : Shell) (session : Session)
    (sh' : Shell) : Prop where
  shows_ : ShowsSession image creator sh' session
  memory : BufferOnly image sh.memory sh'.memory

theorem shellKey_settles (rep : ShowsSession image creator sh session) (ch : UInt8)
    (room : Stores ch → session.line.length < 128)
    : ∃ sh', Settles (fun fuel => shellKey image answers fuel ch sh) sh'
      ∧ KeyDone image creator sh (sessionKey creator answers ch session) sh' := by
  unfold shellKey sessionKey
  by_cases enter : ch = chr '\n'
  · simp only [if_pos enter]
    have less := room (by rw [Stores, enter]; decide)
    obtain ⟨bytes, same₁⟩ := rep.store less 0
    let sh₁ : Shell := { (sh.put [ch]).store 0 with ptr := image.command }
    obtain ⟨sh₂, handles, done⟩ :=
      @handleCommand_settles image answers sh₁ _ (rep.linked.kept same₁) ⟨bytes, rep.noNul⟩ less
    let sh₃ : Shell := { sh₂ with memory := memset sh₂.memory image.command 0 128 }
    have cleared : BufferOnly image sh₂.memory sh₃.memory :=
      fun address outside => memset_outside 0 rep.linked.room outside
    have same₃ : BufferOnly image sh.memory sh₃.memory := (same₁.trans done.memory).trans cleared
    have prompts := @printf_settles image sh₃ (rep.linked.kept same₃) .prompt
      [⟨answers.pidBehind, []⟩] ⟨matches_word _ _ (by decide), trivial⟩
    refine ⟨_, .bind handles prompts, ⟨rep.linked.kept same₃, ?_, Nat.zero_le _, trivial, by simp,
      ?_, done.creator.trans rep.creator, ?_⟩, same₃⟩
    · exact done.ptr.trans (BitVec.add_zero _).symm
    · exact done.running.trans (congrArg (· && _) rep.running)
    · change sh₂.calls ++ [.put (putText ShellFormat.prompt.pieces [⟨answers.pidBehind, []⟩])] = _
      rw [done.calls]
      change sh.calls ++ [.put [ch]] ++ lineCalls sh.creator answers session.line ++ _ = _
      rw [rep.calls, rep.creator, List.append_assoc session.calls]
      rfl
  · simp only [if_neg enter]
    by_cases back : ch = chr '\x08'
    · simp only [if_pos back]
      by_cases empty : session.line = []
      · have stays : ¬ image.command < sh.ptr := by
          rw [rep.ptr, BitVec.lt_def, rep.linked.number rep.fits, empty]
          simp
        simp only [if_pos empty, if_neg stays]
        exact ⟨sh, .pure sh, rep, .refl _⟩
      · have some_ := List.length_pos_iff.mpr empty
        have fits := rep.fits
        have place := rep.linked.number fits
        have goes : image.command < sh.ptr := by
          rw [rep.ptr, BitVec.lt_def, place]
          omega
        have length : session.line.dropLast.length = session.line.length - 1 :=
          List.length_dropLast
        have parts := List.dropLast_append_getLast empty
        simp only [if_neg empty, if_pos goes]
        refine ⟨_, .pure _, ⟨rep.linked, ?_, ?_, ?_, ?_, rep.running, rep.creator, ?_⟩, .refl _⟩
        · change sh.ptr - 1 = image.command + BitVec.ofNat 32 session.line.dropLast.length
          have one : 1 ≤ sh.ptr := by
            rw [rep.ptr, BitVec.le_def, place]
            exact Nat.le_trans some_ (Nat.le_add_left _ _)
          rw [← BitVec.toNat_inj, rep.linked.number (by omega), length,
            BitVec.toNat_sub_of_le one, rep.ptr, place]
          exact Nat.add_sub_assoc some_ _
        · exact length.trans_le ((Nat.sub_le _ _).trans fits)
        · have bytes := rep.bytes
          rw [← parts, bytesAt_append] at bytes
          exact bytes.1
        · exact fun nul => rep.noNul (List.dropLast_subset _ nul)
        · exact congrArg (· ++ [ShellCall.put [ch]]) rep.calls
    · simp only [if_neg back]
      by_cases zero : ch = 0
      · simp only [if_pos zero]
        exact ⟨sh, .pure sh, rep, .refl _⟩
      · simp only [if_neg zero]
        have less := room ⟨back, zero⟩
        obtain ⟨bytes, same⟩ := rep.store less ch
        refine ⟨_, .pure _, ⟨rep.linked.kept same, ?_, ?_, bytes, ?_, rep.running, rep.creator, ?_⟩,
          same⟩
        · change sh.ptr + 1 = _
          rw [rep.ptr, List.length_append, BitVec.ofNat_add, ← BitVec.add_assoc]
          rfl
        · rw [List.length_append]
          exact less
        · simpa [Ne.symm zero] using rep.noNul
        · exact congrArg (· ++ [ShellCall.put [ch]]) rep.calls

/-- Keys that fit, by induction over them. -/
theorem shellLoop_settles (rep : ShowsSession image creator sh session)
    (keys : List (UInt8 × Answers)) (fits : Fits creator keys session)
    : ∃ sh', Settles (fun fuel => shellLoop image fuel keys sh) sh'
      ∧ KeyDone image creator sh (sessionLoop creator keys session) sh' := by
  induction keys generalizing sh session with
  | nil => exact ⟨sh, .pure sh, rep, .refl _⟩
  | cons key keys ih =>
      obtain ⟨ch, answers⟩ := key
      simp only [shellLoop, sessionLoop, rep.running]
      by_cases running : session.running = true
      · obtain ⟨room, later⟩ := fits running
        obtain ⟨sh₁, first, done⟩ := @shellKey_settles image creator answers _ _ rep ch room
        obtain ⟨sh', rest, done'⟩ := ih done.shows_ later
        simp only [if_pos running]
        exact ⟨sh', .bind first rest, done'.shows_, done.memory.trans done'.memory⟩
      · simp only [if_neg running]
        exact ⟨sh, .pure sh, rep, .refl _⟩

/-- Whichever keys of a run have been handled, the next one stores in the buffer, if it stores. -/
def StoresInside (image : ShellImage) (keys : List (UInt8 × Answers))
    (run : List (UInt8 × Answers) → Nat → Option Shell)
    : Prop :=
  ∀ before ch answers after sh, keys = before ++ (ch, answers) :: after →
    Settles (run before) sh → sh.running = true → Stores ch → ¬ Outside image sh.ptr

/-- A key stores in the buffer exactly if the buffer has room, by induction over the keys. -/
theorem storesInside_iff (rep : ShowsSession image creator sh session)
    (keys : List (UInt8 × Answers))
    : StoresInside image keys (fun before fuel => shellLoop image fuel before sh)
      ↔ Fits creator keys session := by
  induction keys generalizing sh session with
  | nil =>
    refine iff_of_true (fun before ch answers after sh same => ?_) trivial
    simp at same
  | cons key keys ih =>
      obtain ⟨ch, answers⟩ := key
      have place := rep.linked.number rep.fits
      have here : Outside image sh.ptr ↔ ¬ session.line.length < 128 := by
        rw [Outside, rep.ptr, place]
        omega
      constructor
      · intro inside running
        have room : Stores ch → session.line.length < 128 := by
          intro stores
          have inside := inside [] ch answers keys sh rfl (.pure sh)
              (rep.running.trans running) stores
          exact not_not.mp (mt here.mpr inside)
        refine ⟨room, ?_⟩
        obtain ⟨sh₁, first, done⟩ := @shellKey_settles image creator answers _ _ rep ch room
        refine (ih done.shows_).mp fun before ch' answers' after sh' same settles => ?_
        refine inside ((ch, answers) :: before) ch' answers' after sh' (by rw [same]; rfl) ?_
        simp only [shellLoop, rep.running, if_pos running]
        exact .bind first settles
      · intro fits before ch' answers' after sh' same settles running'
        by_cases running : session.running = true
        · obtain ⟨room, later⟩ := fits running
          cases before with
          | nil =>
              obtain ⟨⟨rfl, -⟩, -⟩ : (ch = ch' ∧ answers = answers') ∧ keys = after := by
                simpa using same
              obtain rfl : sh = sh' := Settles.unique (.pure sh) settles
              exact fun stores => mt here.mp (not_not.mpr (room stores))
          | cons key' before =>
              obtain ⟨rfl, split⟩ := List.cons.inj same
              obtain ⟨sh₁, first, done⟩ := @shellKey_settles image creator answers _ _ rep ch room
              simp only [shellLoop, rep.running, if_pos running] at settles
              exact (ih done.shows_).mpr later before ch' answers' after sh' split
                (.of_bind first settles) running'
        · have stays : Settles (fun fuel => shellLoop image fuel before sh) sh := by
            cases before with
            | nil => exact .pure sh
            | cons key' before =>
                simp only [shellLoop, rep.running, if_neg running]
                exact .pure sh
          obtain rfl : sh = sh' := stays.unique settles
          exact absurd (rep.running.symm.trans running') running

-----------------------------------------------------------------------------------------
-- Whole runs
-----------------------------------------------------------------------------------------

/-- The calls in front of the loop show an empty session. -/
theorem shellStart_settles {memory : CharMemory} (linked : ShellLinked image memory)
    (pid semaphoreId : BitVec 32)
    : ∃ sh', Settles (fun fuel => shellStart image fuel pid semaphoreId memory) sh'
      ∧ ShowsSession image pid sh' (sessionStart image pid semaphoreId)
      ∧ BufferOnly image memory sh'.memory := by
  have same : BufferOnly image memory (memset memory image.command 0 128) :=
    fun address outside => memset_outside 0 linked.room outside
  have linked' := linked.kept same
  let sh₀ : Shell :=
    ⟨memset memory image.command 0 128, image.command, 0, true, pid, [.mutexInit]⟩
  have pointer := @printf_settles image sh₀ linked' .pointer [⟨image.command, []⟩]
    ⟨matches_word _ _ (by decide), trivial⟩
  let sh₁ := sh₀.put (putText ShellFormat.pointer.pieces [⟨image.command, []⟩])
  have semaphore := @printf_settles image sh₁ linked' .semaphore [⟨semaphoreId, []⟩]
    ⟨matches_word _ _ (by decide), trivial⟩
  let sh₂ := sh₁.put (putText ShellFormat.semaphore.pieces [⟨semaphoreId, []⟩])
  have info := @printf_settles image sh₂ linked' .info [] trivial
  have prompt := @printf_settles image (sh₂.put (formatBytes ShellFormat.info.pieces)) linked'
    .prompt [⟨pid, []⟩] ⟨matches_word _ _ (by decide), trivial⟩
  exact ⟨_, .bind pointer (.bind semaphore (.bind info prompt)),
    ⟨linked', (BitVec.add_zero _).symm, Nat.zero_le _, trivial, by simp [sessionStart], rfl, rfl,
      rfl⟩, same⟩

end Keys

/-- A session, from the first line to the last call. -/
theorem shell_session {image : ShellImage} {memory : CharMemory}
    (linked : ShellLinked image memory) (pid semaphoreId pidLast : BitVec 32)
    (keys : List (UInt8 × Answers)) (fits : Fits pid keys (sessionStart image pid semaphoreId))
    : ∃ sh', Settles
          (fun fuel => shellMain image fuel pid semaphoreId pidLast keys memory) sh'
      ∧ sh'.calls = sessionCalls pid pidLast (sessionLoop pid keys
        (sessionStart image pid semaphoreId))
      ∧ BufferOnly image memory sh'.memory := by
  obtain ⟨sh₀, starts, shows₀, same₀⟩ := shellStart_settles linked pid semaphoreId
  obtain ⟨sh₁, loops, done⟩ := shellLoop_settles shows₀ keys fits
  have same := same₀.trans done.memory
  by_cases running : (sessionLoop pid keys (sessionStart image pid semaphoreId)).running = true
  · refine ⟨sh₁, .bind starts (.bind loops ?_), ?_, same⟩
    · exact .congr (.pure sh₁) 0 fun _ _ => if_pos (done.shows_.running.trans running)
    · rw [sessionCalls, if_pos running, List.append_nil]
      exact done.shows_.calls
  · have stopped : ¬ sh₁.running = true := fun runs => running (done.shows_.running.symm.trans runs)
    have exiting := @printf_settles image sh₁ done.shows_.linked .exiting [] trivial
    let sh₂ := (sh₁.put (formatBytes ShellFormat.exiting.pieces)).call .mutexUnlock
    have leaves : Settles
        (fun fuel => if sh₁.running then some sh₁ else shellLeave image fuel pidLast sh₁)
        (if pidLast = sh₁.creator then sh₂.call .mutexFree else sh₂) := by
      simp only [if_neg stopped]
      exact .bind exiting (.pure _)
    refine ⟨_, .bind starts (.bind loops leaves), ?_, ?_⟩
    · rw [sessionCalls, if_neg running, leaveCalls, ← done.shows_.calls, done.shows_.creator]
      split <;> simp [sh₂, Shell.call, Shell.put]
    · split <;> exact same

/-- Few keys fit, by induction over them. -/
theorem fits_few {creator : BitVec 32} {keys : List (UInt8 × Answers)} {session : Session}
    (few : session.line.length + keys.length ≤ 128)
    : Fits creator keys session := by
  induction keys generalizing session with
  | nil => trivial
  | cons key keys ih =>
      rw [List.length_cons] at few
      refine fun _ => ⟨fun _ => by omega, ih ?_⟩
      rw [sessionKey]
      split
      · rw [List.length_nil]
        omega
      · split
        · split
          · omega
          · rw [List.length_dropLast]
            omega
        · split
          · omega
          · rw [List.length_append, List.length_singleton]
            omega

def shellLiterals : List (List UInt8) :=
  [chr ' '] :: Command.all.map Command.name
    ++ [.pointer, .semaphore, .info, .prompt, .number, .word, .newLine, .error, .child, .notFound,
      .exiting].map (fun format : ShellFormat => formatBytes format.pieces)

/-- A memory that holds the literals at its bottom. -/
def shellMemory : CharMemory := fun address =>
  (shellLiterals.flatMap (· ++ [0])).getD address.toNat 0

/-- The address of a literal: those in front of it end with a NUL. -/
def literalAddress (k : Nat) : BitVec 32 :=
  BitVec.ofNat 32 ((shellLiterals.take k).map (fun text => text.length + 1)).sum

def shellImage : ShellImage where
  command := 4096
  space := literalAddress 0
  name command := literalAddress (1 + command.ctorIdx)
  format format := literalAddress (9 + format.ctorIdx)

theorem shell_linked : ShellLinked shellImage shellMemory where
  some_ := by decide
  room := by decide
  space := ⟨by decide +kernel, by decide +kernel⟩
  name command := by cases command <;> exact ⟨by decide +kernel, by decide +kernel⟩
  format format := by cases format <;> exact ⟨by decide +kernel, by decide +kernel⟩

/-- `echo` with a word and a slip. -/
def echoKeys : List (UInt8 × Answers) :=
  ['e', 'c', 'h', 'o', ' ', 'h', 'o', '\x08', 'i', '\n'].map (fun c => (chr c, ⟨1, 3, 0, 1⟩))

theorem shell_session_echo
    : ∃ sh', Settles (fun fuel => shellMain shellImage fuel 1 5 1 echoKeys shellMemory) sh'
      ∧ sh'.calls.drop 14 = [.put [chr '\n'], .put (['h', 'i', ' '].map chr), .put [chr '\n'],
        .put (['s', 'h', 'e', 'l', 'l', '(', '1', ')', '>', ' '].map chr)] := by
  obtain ⟨sh', settles, calls, -⟩ := shell_session shell_linked 1 5 1 echoKeys
      (fits_few (by decide))
  refine ⟨sh', settles, ?_⟩
  rw [calls]
  decide +kernel

/-- The shell stores in its buffer at every key exactly if the buffer has room at every key. -/
theorem shell_stores_iff {image : ShellImage} {memory : CharMemory}
    (linked : ShellLinked image memory) (pid semaphoreId : BitVec 32)
    (keys : List (UInt8 × Answers))
    : StoresInside image keys (fun before fuel =>
          (shellStart image fuel pid semaphoreId memory).bind (shellLoop image fuel before))
      ↔ Fits pid keys (sessionStart image pid semaphoreId) := by
  obtain ⟨sh₀, starts, shows₀, -⟩ := shellStart_settles linked pid semaphoreId
  rw [← storesInside_iff shows₀ keys]
  constructor
  · intro inside before ch answers after sh same settles
    exact inside before ch answers after sh same (.bind starts settles)
  · intro inside before ch answers after sh same settles
    exact inside before ch answers after sh same (.of_bind starts settles)

theorem shell_stores_iff_echo
    : StoresInside shellImage echoKeys (fun before fuel =>
        (shellStart shellImage fuel 1 5 shellMemory).bind (shellLoop shellImage fuel before)) :=
  (shell_stores_iff shell_linked 1 5 echoKeys).mpr (fits_few (by decide))

end DeadKernel
