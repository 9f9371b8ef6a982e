import DeadKernel.Io.PrintedItems
import DeadKernel.Shared.Numbers
import DeadKernel.Shared.TokenStrings

/-! The shell: a line editor over a buffer of 128 bytes, and the commands of a line. The editor does
not ask how many characters stand in the buffer.
-/

namespace DeadKernel

-----------------------------------------------------------------------------------------
-- Commands and formats
-----------------------------------------------------------------------------------------

inductive Command where
  | info
  | getpid
  | getring
  | readmem
  | echo
  | lspci
  | shell
  | exit
deriving DecidableEq

/-- The commands in the order in which `handle_command` asks for them. -/
def Command.all : List Command := [.info, .getpid, .getring, .readmem, .echo, .lspci, .shell, .exit]

def Command.name : Command → List UInt8
  | .info => ['i', 'n', 'f', 'o'].map chr
  | .getpid => ['g', 'e', 't', 'p', 'i', 'd'].map chr
  | .getring => ['g', 'e', 't', 'r', 'i', 'n', 'g'].map chr
  | .readmem => ['r', 'e', 'a', 'd', 'm', 'e', 'm'].map chr
  | .echo => ['e', 'c', 'h', 'o'].map chr
  | .lspci => ['l', 's', 'p', 'c', 'i'].map chr
  | .shell => ['s', 'h', 'e', 'l', 'l'].map chr
  | .exit => ['e', 'x', 'i', 't'].map chr

/-- The formats of the shell's own calls of `printf`. -/
inductive ShellFormat where
  | pointer
  | semaphore
  | info
  | prompt
  | number
  | word
  | newLine
  | error
  | child
  | notFound
  | exiting
deriving DecidableEq

def ShellFormat.pieces : ShellFormat → List Piece
  | .pointer =>
      ['C', 'o', 'm', 'm', 'a', 'n', 'd', ' ', 's', 't', 'r', ' ', 'p', 't', 'r', ':', ' ', '0',
        'x'].map .char
      ++ [wordSpec, .char '\n']
  | .semaphore =>
      ['S', 'e', 'm', 'a', 'p', 'h', 'o', 'r', 'e', ' ', 'i', 'd', ':', ' '].map .char
      ++ [bare .d, .char '\n']
  | .info =>
      ['s', 'h', 'e', 'l', 'l', ' ', 'v', '0', '.', '1', ' ', 'b', 'y', ' ', 'B', 'i', 't',
        '\n'].map .char
  | .prompt => ['s', 'h', 'e', 'l', 'l', '('].map .char ++ bare .d :: [')', '>', ' '].map .char
  | .number => [bare .d, .char '\n']
  | .word => [bare .s, .char ' ']
  | .newLine => [.char '\n']
  | .error => ['E', 'r', 'r', 'o', 'r', '!', '\n'].map .char
  | .child =>
      ['N', 'e', 'w', ' ', 's', 'h', 'e', 'l', 'l', ' ', 'p', 'i', 'd', ' ', '('].map .char
      ++ bare .d :: [')', ':', ' '].map .char ++ [bare .d, .char '\n']
  | .notFound =>
      ['C', 'o', 'm', 'm', 'a', 'n', 'd', ' '].map .char
      ++ bare .s :: [' ', 'n', 'o', 't', ' ', 'f', 'o', 'u', 'n', 'd', '\n'].map .char
  | .exiting => ['\n', 'E', 'x', 'i', 't', 'i', 'n', 'g', '.', '.', '.', '\n'].map .char

/-- Where the linker has put the literals, and `main` its buffer. -/
structure ShellImage where
  command : BitVec 32
  space : BitVec 32
  name : Command → BitVec 32
  format : ShellFormat → BitVec 32

-----------------------------------------------------------------------------------------
-- The state
-----------------------------------------------------------------------------------------

/-- What the shell asks of others: bytes on the screen, a dump, the list of devices, and the system
calls that do something.
-/
inductive ShellCall where
  | put (text : List UInt8)
  | memPrint (mem size : BitVec 32)
  | listPci
  | fork
  | yield
  | mutexInit
  | mutexLock
  | mutexUnlock
  | mutexFree
deriving DecidableEq

/-- What the system calls answer while one key is handled: `pidBehind` is the process behind a
`fork`, which may be the child.
-/
structure Answers where
  pid : BitVec 32
  ring : BitVec 32
  forked : BitVec 32
  pidBehind : BitVec 32

/-- The memory, the variables of `main`, the static pointer of `strtok`, and what has been asked. -/
structure Shell where
  memory : CharMemory
  ptr : BitVec 32
  backupString : BitVec 32
  running : Bool
  creator : BitVec 32
  calls : List ShellCall

def Shell.call (call : ShellCall) (sh : Shell) : Shell := { sh with calls := sh.calls ++ [call] }

def Shell.put (text : List UInt8) (sh : Shell) : Shell := sh.call (.put text)

/-- `*ptr = ch`. -/
def Shell.store (ch : UInt8) (sh : Shell) : Shell :=
  { sh with memory := Function.update sh.memory sh.ptr ch }

def memset (memory : CharMemory) (dest : BitVec 32) (val : UInt8) : Nat → CharMemory
  | 0 => memory
  | len + 1 => memset (Function.update memory dest val) (dest + 1) val len

section Shell

variable (image : ShellImage) (answers : Answers) (fuel : Nat)

def Shell.printf (format : ShellFormat) (args : List (BitVec 32)) (sh : Shell) : Option Shell :=
  (putBy fuel sh.memory (image.format format) args).map (fun text => sh.put text)

def printPrompt (pid : BitVec 32) (sh : Shell) : Option Shell := sh.printf image fuel .prompt [pid]

-----------------------------------------------------------------------------------------
-- handle_command
-----------------------------------------------------------------------------------------

/-- The loop that fills `argv`. -/
def takeArgs : Nat → Tokenizer → Option (List (BitVec 32) × Tokenizer)
  | 0, st => some ([], st)
  | left + 1, st => do
      let (arg, st) ← strtok fuel 0 image.space st
      if arg = 0 then some ([], st)
      else do
        let (args, st) ← takeArgs left st
        some (arg :: args, st)

/-- The comparisons of `handle_command`, up to the first that succeeds. -/
def findCommand (memory : CharMemory) (cmd : BitVec 32) : List Command → Option (Option Command)
  | [] => some none
  | command :: rest => do
      let difference ← strcmp memory fuel cmd (image.name command)
      if difference = 0 then some (some command) else findCommand memory cmd rest

/-- `printf("%s ", argv[i])` for every argument. -/
def echoArgs : List (BitVec 32) → Shell → Option Shell
  | [], sh => sh.printf image fuel .newLine []
  | arg :: args, sh => do
      let sh ← sh.printf image fuel .word [arg]
      echoArgs args sh

/-- The branch of a command. -/
def performCommand (args : List (BitVec 32)) (sh : Shell) : Command → Option Shell
  | .info => sh.printf image fuel .info []
  | .getpid => sh.printf image fuel .number [answers.pid]
  | .getring => sh.printf image fuel .number [answers.ring]
  | .readmem =>
      match args with
      | first :: second :: _ => do
          let str ← stringFrom sh.memory fuel first
          let count ← (stringFrom sh.memory fuel second).bind atoi
          some (sh.call (.memPrint (strtoi (some str) 16).1 (BitVec.ofInt 32 count)))
      | _ => some sh
  | .echo => echoArgs image fuel args sh
  | .lspci => some (sh.call .listPci)
  | .shell =>
      if answers.pid ≠ sh.creator then sh.printf image fuel .error []
      else
        let sh := sh.call .fork
        if answers.forked = -1 then some sh
        else if 0 < answers.forked.toInt then
          let sh := (List.range 15).foldl (fun sh _ => sh.call .yield) sh
          some ((sh.call .mutexLock).call .mutexUnlock)
        else (sh.call .mutexLock).printf image fuel .child [answers.pidBehind, answers.forked]
  | .exit => some { sh with running := false }

def handleCommand (sh : Shell) : Option Shell := do
  let text ← stringFrom sh.memory fuel image.command
  if text.length = 0 then some sh
  else do
    let (cmd, st) ← strtok fuel image.command image.space ⟨sh.memory, sh.backupString⟩
    let sh := { sh with memory := st.memory, backupString := st.backupString }
    if cmd = 0 then some sh
    else do
      let (args, st) ← takeArgs image fuel 16 ⟨sh.memory, sh.backupString⟩
      let sh := { sh with memory := st.memory, backupString := st.backupString }
      let found ← findCommand image fuel sh.memory cmd Command.all
      match found with
      | some command => performCommand image answers fuel args sh command
      | none => sh.printf image fuel .notFound [cmd]

-----------------------------------------------------------------------------------------
-- main
-----------------------------------------------------------------------------------------

/-- A round of the loop of `main`, for the character that `getch` returns. -/
def shellKey (ch : UInt8) (sh : Shell) : Option Shell :=
  if ch = chr '\n' then do
    let sh := { (sh.put [ch]).store 0 with ptr := image.command }
    let sh ← handleCommand image answers fuel sh
    let sh := { sh with memory := memset sh.memory image.command 0 128 }
    printPrompt image fuel answers.pidBehind sh
  else if ch = chr '\x08' then
    if image.command < sh.ptr then some { sh.put [ch] with ptr := sh.ptr - 1 } else some sh
  else if ch = 0 then some sh
  else some { (sh.put [ch]).store ch with ptr := sh.ptr + 1 }

/-- The calls of `main` in front of its loop. -/
def shellStart (pid semaphoreId : BitVec 32) (memory : CharMemory) : Option Shell := do
  let sh : Shell := ⟨memset memory image.command 0 128, image.command, 0, true, pid, []⟩
  let sh := sh.call .mutexInit
  let sh ← sh.printf image fuel .pointer [image.command]
  let sh ← sh.printf image fuel .semaphore [semaphoreId]
  let sh ← sh.printf image fuel .info []
  printPrompt image fuel pid sh

/-- The calls of `main` behind its loop. -/
def shellLeave (pid : BitVec 32) (sh : Shell) : Option Shell := do
  let sh ← sh.printf image fuel .exiting []
  let sh := sh.call .mutexUnlock
  some (if pid = sh.creator then sh.call .mutexFree else sh)

end Shell

/-- The loop of `main`: the keys up to the first that ends it, with the answers for each. -/
def shellLoop (image : ShellImage) (fuel : Nat) : List (UInt8 × Answers) → Shell → Option Shell
  | [], sh => some sh
  | (ch, answers) :: keys, sh =>
      if sh.running then (shellKey image answers fuel ch sh).bind (shellLoop image fuel keys)
      else some sh

/-- `main`, up to where it waits for a further key. -/
def shellMain (image : ShellImage) (fuel : Nat) (pid semaphoreId pidLast : BitVec 32)
    (keys : List (UInt8 × Answers)) (memory : CharMemory)
    : Option Shell := do
  let sh ← shellStart image fuel pid semaphoreId memory
  let sh ← shellLoop image fuel keys sh
  if sh.running then some sh else shellLeave image fuel pidLast sh

end DeadKernel
