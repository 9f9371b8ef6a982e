import DeadKernel.Memory.FreeingLive
import DeadKernel.Multitasking.SemaphoreIds

/-! What `semctl` returns. It reads the id of a semaphore that it has freed from the block that it
has just given to `kfree`.
-/

namespace DeadKernel

open Words Rings

-----------------------------------------------------------------------------------------
-- What a call has to give
-----------------------------------------------------------------------------------------

/-- A live semaphore has the id. -/
def Tasking.Names (st : Tasking) (id : Nat) (semaphore : Node) : Prop :=
  st.LinkedIn .semaphoreQueue semaphore ∧ (st.semaphores semaphore).id = id

/-- The semaphore is not as it was made, or somebody waits for it. -/
def Tasking.Busy (st : Tasking) (semaphore : Node) : Prop :=
  (st.semaphores semaphore).count ≠ (st.semaphores semaphore).initialValue
    ∨ ∃ task, st.LinkedIn semaphore.queue task

/-- The calls that have to fail. -/
inductive Refused (st : Tasking) (id command args : Nat) : Prop where
  | noQueue (none : st.semctlReady = false)
  | unknown (other : command ≠ semaphoreInit ∧ command ≠ semaphoreSignal ∧ command ≠ semaphoreWait
      ∧ command ≠ semaphoreFree)
  | null (init : command = semaphoreInit) (null : args = 0)
  | unnamed (on : command = semaphoreSignal ∨ command = semaphoreWait ∨ command = semaphoreFree)
      (none : ∀ semaphore, ¬ st.Names id semaphore)
  | busy (free : command = semaphoreFree) (semaphore : Node) (names : st.Names id semaphore)
      (busy : st.Busy semaphore)

/-- The call fails exactly if it has to, and then changes nothing; otherwise it returns the id of
the semaphore that it makes or is about.
-/
structure Answered (st : Tasking) (env : CallEnv) (regs : CPURegisters)
    (r : Nat × CPURegisters × Tasking)
    : Prop where
  fails : r.1 = failure ↔ Refused st regs.ebx regs.ecx regs.edx
  unchanged : Refused st regs.ebx regs.ecx regs.edx → r.2 = (regs, st)
  made : ¬ Refused st regs.ebx regs.ecx regs.edx → regs.ecx = semaphoreInit
    → r.2.2.Names r.1 (.semaphore env.block)
  named : ¬ Refused st regs.ebx regs.ecx regs.edx → regs.ecx ≠ semaphoreInit
    → r.1 = regs.ebx ∧ ∃ semaphore, st.Names r.1 semaphore

/-- `semctl` returns, with the right result. -/
def SemctlAnswers (st : Tasking) (env : CallEnv) (regs : CPURegisters) : Prop :=
  ∃ enough, ∀ fuel, enough ≤ fuel →
    ∃ r, semctl { env with fuel } regs.ebx regs.ecx regs.edx regs st = some r
      ∧ Answered st env regs r

-----------------------------------------------------------------------------------------
-- The search
-----------------------------------------------------------------------------------------

section Search

variable {st : Tasking} {nodes sems : List Node} {waiting : Node → List Node} {id : Nat}

/-- The first semaphore with the id, by induction over those that are left. -/
theorem Queues.findSemaphore_eq {done rest : List Node} (h : Queues st nodes sems waiting)
    (split : sems = done ++ rest) (id : Nat) {fuel : Nat} (enough : rest.length < fuel)
    : findSemaphore id st fuel (rest.headD .semaphoreQueue)
      = some (rest.find? (fun semaphore => (st.semaphores semaphore).id = id)) := by
  induction rest generalizing done fuel with
  | nil =>
      obtain ⟨fuel, rfl⟩ := Nat.exists_eq_add_of_lt enough
      rw [List.headD_nil, findSemaphore, if_pos rfl, List.find?_nil]
  | cons semaphore rest ih =>
      obtain ⟨fuel, rfl⟩ : ∃ more, fuel = more + 1 := ⟨fuel - 1, by omega⟩
      obtain ⟨notHead, next⟩ := h.next_semaphore split
      rw [List.headD_cons, findSemaphore, if_neg notHead]
      by_cases found : (st.semaphores semaphore).id = id
      · rw [if_pos found, List.find?_cons, decide_eq_true found]
      · rw [if_neg found, List.find?_cons, decide_eq_false found, next]
        exact ih (by rw [split]; simp : sems = (done ++ [semaphore]) ++ rest)
          (Nat.lt_of_succ_lt_succ enough)

theorem Queues.names_iff (h : Queues st nodes sems waiting) {semaphore : Node}
    : st.Names id semaphore ↔ semaphore ∈ sems ∧ (st.semaphores semaphore).id = id :=
  and_congr_left' h.semaphores.linkedIn_iff

/-- A semaphore that is named has a number that has been given out. -/
theorem Numbered.named (numbered : Numbered st sems) (h : Queues st nodes sems waiting)
    {semaphore : Node} (names : st.Names id semaphore)
    : 0 < id ∧ id < st.nextSemaphoreID := by
  obtain ⟨member, rfl⟩ := h.names_iff.mp names
  exact numbered.given semaphore member

/-- The search finds the semaphore that is named, if there is one. -/
theorem Numbered.search (numbered : Numbered st sems) (h : Queues st nodes sems waiting)
    (id : Nat) {env : CallEnv} (enough : sems.length < env.fuel)
    : (∃ semaphore, st.Names id semaphore ∧ searchSemaphore env id st = some (some semaphore))
      ∨ (∀ semaphore, ¬ st.Names id semaphore) ∧ searchSemaphore env id st = some none := by
  by_cases zero : id = 0
  · refine .inr ⟨fun semaphore names => ?_, if_neg (not_not.mpr zero)⟩
    exact absurd (numbered.named h names).1 (by omega)
  · have search : searchSemaphore env id st
        = some (sems.find? (fun semaphore => (st.semaphores semaphore).id = id)) := by
      rw [searchSemaphore, if_pos zero, h.first_semaphore]
      exact h.findSemaphore_eq (List.nil_append _).symm id enough
    rw [search]
    cases found : sems.find? (fun semaphore => (st.semaphores semaphore).id = id) with
    | some semaphore =>
        have same : (st.semaphores semaphore).id = id := by simpa using List.find?_some found
        exact .inl ⟨semaphore, h.names_iff.mpr ⟨List.mem_of_find?_eq_some found, same⟩, rfl⟩
    | none =>
        refine .inr ⟨fun semaphore names => ?_, rfl⟩
        obtain ⟨member, same⟩ := h.names_iff.mp names
        exact List.find?_eq_none.mp found semaphore member (decide_eq_true same)

theorem Numbered.unique (numbered : Numbered st sems) (h : Queues st nodes sems waiting)
    {semaphore other : Node} (names : st.Names id semaphore) (names' : st.Names id other)
    : semaphore = other := by
  obtain ⟨member, rfl⟩ := h.names_iff.mp names
  obtain ⟨inside, same⟩ := h.names_iff.mp names'
  exact numbered.distinct semaphore member other inside same.symm

theorem Queues.busy_iff (h : Queues st nodes sems waiting) {semaphore : Node}
    (names : st.Names id semaphore)
    : st.Busy semaphore ↔ (st.semaphores semaphore).count ≠ (st.semaphores semaphore).initialValue
      ∨ queueEmpty semaphore.queue st = false := by
  have queue := h.waiters semaphore (h.names_iff.mp names).1
  refine or_congr_right ?_
  rw [← Bool.not_eq_true, queue.queueEmpty_iff, List.eq_nil_iff_forall_not_mem, not_forall_not]
  exact exists_congr (fun task => queue.linkedIn_iff)

end Search

-----------------------------------------------------------------------------------------
-- The calls
-----------------------------------------------------------------------------------------

section Calls

variable {st : Tasking} {nodes sems : List Node} {waiting : Node → List Node} {env : CallEnv}
  {regs : CPURegisters}

/-- A call that has to fail and does. -/
theorem Answered.refused (refused : Refused st regs.ebx regs.ecx regs.edx)
    : Answered st env regs (failure, regs, st) :=
  ⟨iff_of_true rfl refused, fun _ => rfl, fun served => absurd refused served,
    fun served => absurd refused served⟩

/-- A call that is served and returns the id of the semaphore it is about. -/
theorem Answered.served (numbered : Numbered st sems) (h : Queues st nodes sems waiting)
    {semaphore : Node} (names : st.Names regs.ebx semaphore)
    (served : ¬ Refused st regs.ebx regs.ecx regs.edx) (on : regs.ecx ≠ semaphoreInit)
    (r : CPURegisters × Tasking)
    : Answered st env regs (regs.ebx, r) := by
  have below : st.nextSemaphoreID ≤ 4294967295 := numbered.below
  have given := (numbered.named h names).2
  have differs : regs.ebx ≠ 4294967295 := by omega
  exact ⟨iff_of_false differs served, fun refused => absurd refused served,
    fun _ init => absurd init on, fun _ _ => ⟨rfl, semaphore, names⟩⟩

/-- A new semaphore. -/
theorem Scheduled.init_answers (h : Scheduled st nodes sems waiting)
    (fresh : Node.semaphore env.block ∉ sems) (init : regs.ecx = semaphoreInit)
    (left : regs.edx ≠ 0 → st.nextSemaphoreID ≠ failure)
    : Answered st env regs ((semctlInit env regs.edx st).1, regs, (semctlInit env regs.edx st).2) := by
  rw [semctlInit]
  split
  · rename_i null
    exact .refused (.null init null)
  · rename_i notNull
    have served : ¬ Refused st regs.ebx regs.ecx regs.edx := by
      intro refused
      cases refused with
      | noQueue none => exact Bool.noConfusion (none.symm.trans h.ready)
      | unknown other => exact other.1 init
      | null _ null => exact notNull null
      | unnamed on => exact absurd init (by rcases on with on | on | on <;> rw [on] <;> decide)
      | busy free => exact absurd (init.symm.trans free) (by decide)
    have queues := h.toQueues.addSemaphore fresh
    refine ⟨iff_of_false (left notNull) served, fun refused => absurd refused served,
      fun _ _ => ⟨⟨_, queues.semaphores.congr (fun _ _ => rfl), by simp⟩, ?_⟩,
      fun _ other => absurd init other⟩
    simp [Tasking.setSemaphore, queueAddTail]

/-- Signalling and waiting are served when the id is a live semaphore's. -/
theorem Scheduled.not_refused (h : Scheduled st nodes sems waiting) {id command args : Nat}
    {semaphore : Node} (names : st.Names id semaphore)
    (on : command = semaphoreSignal ∨ command = semaphoreWait)
    : ¬ Refused st id command args := by
  intro refused
  cases refused with
  | noQueue none => exact Bool.noConfusion (none.symm.trans h.ready)
  | unknown other => exact on.elim other.2.1 other.2.2.1
  | null init => exact absurd init (by rcases on with on | on <;> rw [on] <;> decide)
  | unnamed _ none => exact none semaphore names
  | busy free => exact absurd free (by rcases on with on | on <;> rw [on] <;> decide)

/-- Waiting returns: the task that waits can go on itself. -/
theorem Scheduled.wait_ends (h : Scheduled st nodes sems waiting) (env : CallEnv)
    (stays : regs.ecx ≠ exitMark) (semaphore : Node)
    : ∃ enough, ∀ fuel, enough ≤ fuel →
        ∃ r, semctlWait { env with fuel } semaphore regs st = some r := by
  by_cases unit : 0 < (st.semaphores semaphore).count.toInt
  · exact ⟨0, fun fuel _ => ⟨_, if_pos unit⟩⟩
  · have printed := h.print (.moving semaphore st.currentTask)
    have ends : ∃ enough, ∀ fuel, enough ≤ fuel →
        ∃ r, DeadKernel.switchTask fuel regs (st.print (.moving semaphore st.currentTask))
          = some r := by
      by_cases tasking : isTaskingInit st = true
      · exact printed.switch_ends tasking ⟨st.currentTask,
          .inl (printed.run.linkedIn_iff.mpr h.current), printed.current_resumable stays⟩
      · exact ⟨0, fun fuel _ => ⟨_, if_pos tasking⟩⟩
    obtain ⟨enough, ends⟩ := ends
    refine ⟨enough, fun fuel more => ?_⟩
    obtain ⟨r, run⟩ := ends fuel more
    refine ⟨(r.1, listMove st.currentTask semaphore.queue r.2), ?_⟩
    rw [semctlWait, if_neg unit]
    exact Option.bind_eq_some_iff.mpr ⟨r, run, rfl⟩

/-- What `semctl` has to be spared for its results to be right: freeing a semaphore, and giving a
semaphore the number that stands for a failed call.
-/
structure Spared (st : Tasking) (regs : CPURegisters) : Prop where
  freeing : regs.ecx = semaphoreFree → Refused st regs.ebx regs.ecx regs.edx
  number : regs.ecx = semaphoreInit → regs.edx ≠ 0 → st.nextSemaphoreID ≠ failure

/-- The search of a call with enough rounds. -/
theorem Scheduled.semctl_eq (h : Scheduled st nodes sems waiting) (numbered : Numbered st sems)
    (env : CallEnv) (other : regs.ecx ≠ semaphoreInit) (enough : sems.length < env.fuel)
    : (∀ semaphore, st.Names regs.ebx semaphore
        → semctl env regs.ebx regs.ecx regs.edx regs st = semctlOn env semaphore regs.ecx regs st)
      ∧ ((∀ semaphore, ¬ st.Names regs.ebx semaphore)
        → semctl env regs.ebx regs.ecx regs.edx regs st = some (failure, regs, st)) := by
  have ready : st.semctlReady ≠ false := by
    rw [h.ready]
    exact Bool.noConfusion
  rw [semctl, if_neg ready, if_neg other]
  rcases numbered.search h.toQueues regs.ebx enough with ⟨found, names, search⟩ | ⟨none, search⟩
  · rw [search]
    refine ⟨fun semaphore names' => ?_, fun none => absurd names (none found)⟩
    rw [numbered.unique h.toQueues names' names]
  · rw [search]
    exact ⟨fun semaphore names => absurd names (none semaphore), fun _ => rfl⟩

/-- A command on a semaphore that is there. -/
theorem Scheduled.on_answers (h : Scheduled st nodes sems waiting) (numbered : Numbered st sems)
    (free : regs.ecx = semaphoreFree → Refused st regs.ebx regs.ecx regs.edx)
    (env : CallEnv) (init : regs.ecx ≠ semaphoreInit) {semaphore : Node}
    (names : st.Names regs.ebx semaphore)
    : ∃ enough, ∀ fuel, enough ≤ fuel →
        ∃ r, semctlOn { env with fuel } semaphore regs.ecx regs st = some r
          ∧ Answered st env regs r := by
  by_cases signal : regs.ecx = semaphoreSignal
  · refine ⟨0, fun fuel _ => ⟨(regs.ebx, regs, semctlSignal { env with fuel } semaphore st), ?_,
      .served numbered h.toQueues names (h.not_refused names (.inl signal)) init _⟩⟩
    rw [semctlOn, if_pos signal]
    dsimp only
    rw [(semctlSignal_ids _ _ st).ids, names.2]
  by_cases wait : regs.ecx = semaphoreWait
  · obtain ⟨enough, ends⟩ := h.wait_ends env (by rw [wait]; decide : regs.ecx ≠ exitMark) semaphore
    refine ⟨enough, fun fuel more => ?_⟩
    obtain ⟨r, run⟩ := ends fuel more
    refine ⟨(regs.ebx, r), ?_,
      .served numbered h.toQueues names (h.not_refused names (.inr wait)) init _⟩
    rw [semctlOn, if_neg signal, if_pos wait]
    refine Option.bind_eq_some_iff.mpr ⟨r, run, ?_⟩
    change some ((r.2.semaphores semaphore).id, r) = _
    rw [(semctlWait_ids run).ids, names.2]
  by_cases last : regs.ecx = semaphoreFree
  · refine ⟨0, fun fuel _ => ⟨(failure, regs, st), ?_, .refused (free last)⟩⟩
    have busy : st.Busy semaphore := by
      cases free last with
      | noQueue none => exact Bool.noConfusion (none.symm.trans h.ready)
      | unknown other => exact absurd last other.2.2.2
      | null start => exact absurd start init
      | unnamed _ none => exact absurd names (none semaphore)
      | busy _ other names' busy => exact numbered.unique h.toQueues names' names ▸ busy
    rw [semctlOn, if_neg signal, if_neg wait, if_pos last, semctlFree,
      if_pos ((h.toQueues.busy_iff names).mp busy)]
  · refine ⟨0, fun fuel _ => ⟨(failure, regs, st), ?_,
      .refused (.unknown ⟨init, signal, wait, last⟩)⟩⟩
    rw [semctlOn, if_neg signal, if_neg wait, if_neg last]

/-- The results are right for any queues and numbers. -/
theorem Scheduled.semctl_answers (h : Scheduled st nodes sems waiting) (numbered : Numbered st sems)
    (spared : Spared st regs)
    (fresh : regs.ecx = semaphoreInit → Node.semaphore env.block ∉ sems)
    : SemctlAnswers st env regs := by
  by_cases init : regs.ecx = semaphoreInit
  · refine ⟨0, fun fuel _ => ⟨_, ?_, h.init_answers (fresh init) init (spared.number init)⟩⟩
    have ready : st.semctlReady ≠ false := by
      rw [h.ready]
      exact Bool.noConfusion
    rw [semctl, if_neg ready, if_pos init]
    rfl
  by_cases named : ∃ semaphore, st.Names regs.ebx semaphore
  · obtain ⟨semaphore, names⟩ := named
    obtain ⟨most, answers⟩ := h.on_answers numbered spared.freeing env init names
    refine ⟨sems.length + 1 + most, fun fuel enough => ?_⟩
    have on := (h.semctl_eq numbered { env with fuel } init (by change _ < fuel; omega)).1
      semaphore names
    rw [on]
    exact answers fuel (by omega)
  · have none : ∀ semaphore, ¬ st.Names regs.ebx semaphore := not_exists.mp named
    refine ⟨sems.length + 1, fun fuel enough => ⟨(failure, regs, st), ?_, .refused ?_⟩⟩
    · exact (h.semctl_eq numbered { env with fuel } init (by change _ < fuel; omega)).2 none
    · by_cases known : regs.ecx = semaphoreSignal ∨ regs.ecx = semaphoreWait
          ∨ regs.ecx = semaphoreFree
      · exact .unnamed known none
      · simp only [not_or] at known
        exact .unknown ⟨init, known⟩

end Calls

-----------------------------------------------------------------------------------------
-- Runs
-----------------------------------------------------------------------------------------

/-- Before `initTasking` there is no queue. -/
theorem semctl_answers_early (env : CallEnv) (regs : CPURegisters)
    : SemctlAnswers .zero env regs :=
  ⟨0, fun _ _ => ⟨(failure, regs, .zero), rfl, .refused (.noQueue rfl)⟩⟩

/-- In every run whose switches find a task to go on with and whose semaphores get numbers other
than the one for a failed call, `semctl` gives the right result, for any id, command and argument,
unless it frees a semaphore.
-/
theorem semctl_answers_spared {block : Nat} {kernel : Task} {st : Tasking}
    (reached : st = .zero
      ∨ TaskRun (fun st event => event.Finds st ∧ event.NumberLeft st) block kernel st)
    (env : CallEnv) (regs : CPURegisters)
    (fresh : regs.ecx = semaphoreInit → ¬ st.LinkedIn .semaphoreQueue (.semaphore env.block))
    (spared : Spared st regs)
    : SemctlAnswers st env regs := by
  rcases reached with rfl | run
  · exact semctl_answers_early env regs
  · obtain ⟨nodes, sems, waiting, h, numbered⟩ := run.numbered
    exact h.semctl_answers numbered spared (fun init => mt h.semaphores.linkedIn_iff.mpr (fresh init))

/-- A call of `semctl` with an id, a command and an argument. -/
def semctlFrame (id command args : Nat) : CPURegisters :=
  { CPURegisters.zero with eax := 0xd, ebx := id, ecx := command, edx := args }

theorem semctl_answers_spared_first
    : SemctlAnswers (initTasking 1 .zero .zero) ⟨4, 0, 0, 5, 0, 0, 0, 0⟩
        (semctlFrame 0 semaphoreInit 4096) :=
  semctl_answers_spared (.inr .init) _ _ (fun _ => Tasking.not_linkedIn_of_self rfl)
    ⟨fun free => absurd free (by decide), fun _ _ => by decide⟩

-----------------------------------------------------------------------------------------
-- Freeing a semaphore
-----------------------------------------------------------------------------------------

/-- `kfree` leaves no id behind: the semaphore's chunk lies inside the heap and behind a chunk in
use, and the ids are below the heap and different from the address of its list.
-/
theorem semctl_free_fails {block : Nat} {kernel : Task} {st : Tasking}
    (run : TaskRun (fun st event => event.Finds st ∧ event.NumberLeft st) block kernel st)
    (env : CallEnv) {regs : CPURegisters} (free : regs.ecx = semaphoreFree)
    (unused : ¬ Refused st regs.ebx regs.ecx regs.edx)
    {heap : Nat} {k : Kernel} {before back : List Block} {b : Block} {holes : List Span}
    (ok : HeapOk heap k (before ++ b :: back) holes) (used : b.used = true)
    (marked : b.prevUsed = true) (inside : back ≠ [])
    (low : regs.ebx < (k.heaps heap).startAddr) (other : regs.ebx ≠ headOf heap)
    (left : ∀ k', DeadKernel.free (b.addr + 8) heap k = some k'
      → env.freedWord = load32 k'.mem (b.addr + 8))
    : ¬ SemctlAnswers st env regs := by
  obtain ⟨nodes, sems, waiting, h, numbered⟩ := run.numbered
  obtain ⟨m, freed, link⟩ := ok.free_links used marked inside
  have word := left _ freed
  rintro ⟨enough, answers⟩
  obtain ⟨r, called, answered⟩ := answers (enough + sems.length + 1) (by omega)
  have init : regs.ecx ≠ semaphoreInit := by
    rw [free]
    decide
  obtain ⟨same, semaphore, names⟩ := answered.named unused init
  rw [same] at names
  have idle : ¬ st.Busy semaphore := fun busy => unused (.busy free semaphore names busy)
  have on := (h.semctl_eq numbered { env with fuel := enough + sems.length + 1 } init
    (by change _ < enough + sems.length + 1; omega)).1 semaphore names
  rw [on, semctlOn, if_neg (by rw [free]; decide), if_neg (by rw [free]; decide), if_pos free,
    semctlFree, if_neg (mt (h.toQueues.busy_iff names).mpr idle)] at called
  obtain rfl := Option.some.inj called
  change env.freedWord = regs.ebx at same
  rw [word] at same
  rcases link with head | above
  · exact other (same.symm.trans head)
  · exact absurd (same ▸ above) (Nat.not_le.mpr low)

/-- The first semaphore, in a block of its size. -/
def firstSemaphore : TaskEvent :=
  .interrupt (.sysCall ⟨4, 0, 0, 0x90000008, 0, 0, 0, 0⟩ (semctlFrame 0 semaphoreInit 4096))

/-- A heap gives out the block of a semaphore with the id 1 and takes it back; what then stands in
place of the id is returned for it.
-/
theorem semctl_free_returns_link
    : ∃ made r k', oneMegabyte = some made ∧ alloc 1 28 4096 made = some r ∧ r.1 = 0x90000008
        ∧ free 0x90000008 4096 { r.2 with mem := store32 r.2.mem 0x90000008 1 } = some k'
        ∧ load32 k'.mem 0x90000008 = 0x90000028
        ∧ ∃ st, firstSemaphore.step (initTasking 1 .zero .zero) = some st
          ∧ TaskRun (fun st event => event.Finds st ∧ event.NumberLeft st) 1 .zero st
          ∧ ¬ SemctlAnswers st ⟨4, 0, 0, 0, 0, 0, 0x90000028, 0⟩ (semctlFrame 1 semaphoreFree 0) := by
  have run : (oneMegabyte.bind (fun made => (alloc 1 28 4096 made).bind (fun r =>
      (free 0x90000008 4096 { r.2 with mem := store32 r.2.mem 0x90000008 1 }).map (fun k' =>
        (r.1, load32 k'.mem 0x90000008))))) = some (0x90000008, 0x90000028) := by
    decide +kernel
  obtain ⟨made, created, rest⟩ := Option.bind_eq_some_iff.mp run
  obtain ⟨r, allocated, rest⟩ := Option.bind_eq_some_iff.mp rest
  obtain ⟨k', freed, both⟩ := Option.map_eq_some_iff.mp rest
  obtain ⟨pointer, word⟩ := Prod.mk.inj both
  refine ⟨made, r, k', created, allocated, pointer, freed, word, _, rfl, ?_, ?_⟩
  · refine .step .init firstSemaphore ?_ ⟨?_, ?_⟩ rfl
    · exact ⟨fun call => by contradiction, fun _ _ => Tasking.not_linkedIn_of_self rfl⟩
    · exact ⟨fun call => by contradiction, fun _ wait => by contradiction⟩
    · exact fun _ _ _ => by decide
  · rintro ⟨enough, answers⟩
    obtain ⟨r, called, answered⟩ := answers (enough + 2) (by omega)
    obtain rfl : (0x90000028, _, _) = r := Option.some.inj called
    have served : ¬ Refused _ 1 semaphoreFree 0 := mt answered.fails.mpr (by decide)
    obtain ⟨same, -⟩ := answered.named served (by decide)
    exact absurd same (by decide)

end DeadKernel
