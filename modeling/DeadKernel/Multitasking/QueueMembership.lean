import DeadKernel.Multitasking.RunQueue

/-! Who is in the run queue after any sequence of `runTask`, `stopTask` and `destroyTask`.
`stopTask` unlinks a task without recording it, so stopping or destroying a stopped task unlinks
it again, through links that may have gone stale.
-/

namespace DeadKernel

open Rings

-----------------------------------------------------------------------------------------
-- Unlinking what is not linked
-----------------------------------------------------------------------------------------

/-- The neighbours that a node remembers are still neighbours, as far as they are in the queue. -/
structure UnlinkHarmless (st : Tasking) (head : Node) (nodes : List Node) (node : Node) : Prop where
  forward : st.prev node ∈ head :: nodes → st.next (st.prev node) = st.next node
  backward : st.next node ∈ head :: nodes → st.prev (st.next node) = st.prev node

theorem next_queueDelEntry (st : Tasking) (node : Node)
    : (queueDelEntry node st).next (st.prev node) = st.next node
      ∧ (queueDelEntry node st).prev (st.next node) = st.prev node := by
  constructor
  · simp [queueDelEntry, Tasking.next, Tasking.prev, LinkStore.join, queueLinks]
  · simp only [queueDelEntry, Tasking.next, Tasking.prev, LinkStore.join, queueLinks]
    by_cases same : (st.links node).1 = (st.links node).2
    · rw [same, Function.update_self, Function.update_self]
    · rw [Function.update_of_ne same, Function.update_self]

/-- Unlinking a node keeps a queue without it exactly when its remembered neighbours are still
neighbours.
-/
theorem Queue.unlink_iff {st : Tasking} {head node : Node} {nodes : List Node}
    (h : Queue st head nodes)
    : Queue (queueDelEntry node st) head nodes ↔ UnlinkHarmless st head nodes node := by
  obtain ⟨next, prev⟩ := next_queueDelEntry st node
  constructor
  · intro after
    obtain ⟨forward, backward⟩ := Linked.agree h.ring after.ring
    refine ⟨fun member => ?_, fun member => ?_⟩
    · have same := forward (st.prev node) (by rwa [List.dropLast_concat])
      exact same.symm.trans next
    · have same := backward (st.next node) (by
        simp only [List.cons_append, List.tail_cons, List.mem_append, List.mem_singleton]
        exact (List.mem_cons.mp member).symm)
      exact same.symm.trans prev
  · intro harmless
    refine ⟨h.ring.transport (fun x member => ?_) (fun x member => ?_), h.distinct⟩
    · by_cases left : x = st.prev node
      · subst left
        exact next.trans (harmless.forward member).symm
      · change ((queueLinks.join (st.prev node) (st.next node) st.links) x).1 = (st.links x).1
        simp only [LinkStore.join, queueLinks, Function.update_of_ne left]
        by_cases right : x = st.next node
        · rw [right, Function.update_self]
        · rw [Function.update_of_ne right]
    · by_cases right : x = st.next node
      · subst right
        exact prev.trans (harmless.backward member).symm
      · change ((queueLinks.join (st.prev node) (st.next node) st.links) x).2 = (st.links x).2
        simp only [LinkStore.join, queueLinks]
        by_cases left : x = st.prev node
        · rw [left, Function.update_self, ← left, Function.update_of_ne right]
        · rw [Function.update_of_ne left, Function.update_of_ne right]

-----------------------------------------------------------------------------------------
-- Runs
-----------------------------------------------------------------------------------------

/-- The live tasks: not yet run, run and not since stopped, and stopped, in the order of these
events.
-/
structure Members where
  fresh : List Node
  queued : List Node
  stopped : List Node

inductive MemberEvent where
  | alloc (block : Nat) (task : Task)
  | run (node : Node)
  | stop (node : Node)
  | destroy (node : Node)

/-- What the calls mean for membership, whatever the code does. -/
def Members.after (g : Members) : MemberEvent → Members
  | .alloc block _ => { g with fresh := .task block :: g.fresh }
  | .run node =>
      if node ∈ g.fresh then
        { g with fresh := g.fresh.erase node, queued := g.queued ++ [node] }
      else g
  | .stop node =>
      if node ∈ g.queued then
        { g with queued := g.queued.erase node, stopped := node :: g.stopped }
      else g
  | .destroy node =>
      { fresh := g.fresh.erase node
        queued := g.queued.erase node
        stopped := g.stopped.erase node }

def Members.live (g : Members) : List Node := g.fresh ++ g.queued ++ g.stopped

def MemberEvent.step (st : Tasking) : MemberEvent → Tasking
  | .alloc block task => allocTask block task st
  | .run node => (runTask node st).2
  | .stop node => stopTask node st
  | .destroy node => destroyTask node st

/-- A new task gets a block that no live task has; every other call is about a live task. -/
def MemberEvent.Proper (g : Members) : MemberEvent → Prop
  | .alloc block _ => .task block ∉ g.live
  | .run node | .stop node | .destroy node => node ∈ g.live

/-- A task that has been stopped is stopped again or destroyed only where this is harmless. -/
def UnlinksOnce (g : Members) (st : Tasking) : MemberEvent → Prop
  | .stop node | .destroy node =>
      node ∈ g.stopped → UnlinkHarmless st .mainQueue g.queued node
  | _ => True

/-- Runs from an empty run queue, of proper events that meet a condition. -/
inductive MemberRun (ok : Members → Tasking → MemberEvent → Prop) (start : Tasking)
    : Members → Tasking → Prop where
  | init : MemberRun ok start ⟨[], [], []⟩ (initListHead .mainQueue start)
  | step {g : Members} {st : Tasking} (run : MemberRun ok start g st) (event : MemberEvent)
      (proper : event.Proper g) (holds : ok g st event)
      : MemberRun ok start (g.after event) (event.step st)

/-- The run queue holds the queued tasks, and `TS_CREATED` marks those that were never run. -/
structure MembersOk (g : Members) (st : Tasking) : Prop where
  queue : Queue st .mainQueue g.queued
  distinct : g.live.Nodup
  tasks : ∀ node ∈ g.live, ∃ block, node = .task block
  fresh : ∀ node ∈ g.fresh, (st.tasks node).status = .created
  known : ∀ node ∈ g.queued ++ g.stopped, (st.tasks node).status ≠ .created

/-- Each live task is in exactly one of the three lists, and never equal to the queue's head. -/
theorem MembersOk.not_head {g : Members} {st : Tasking} (h : MembersOk g st) {node : Node}
    (member : node ∈ g.live)
    : node ≠ .mainQueue := by
  obtain ⟨block, rfl⟩ := h.tasks node member
  exact Node.noConfusion

theorem Members.mem_live {g : Members} {node : Node}
    : node ∈ g.live ↔ node ∈ g.fresh ∨ node ∈ g.queued ∨ node ∈ g.stopped := by
  simp [Members.live]

theorem MembersOk.apart {g : Members} {st : Tasking} (h : MembersOk g st) {node : Node}
    : (node ∈ g.fresh → node ∉ g.queued ∧ node ∉ g.stopped)
      ∧ (node ∈ g.queued → node ∉ g.stopped) := by
  obtain ⟨first, -, apart⟩ := List.nodup_append.mp h.distinct
  obtain ⟨-, -, inner⟩ := List.nodup_append.mp first
  refine ⟨fun fresh => ⟨fun queued => ?_, fun stopped => ?_⟩, fun queued stopped => ?_⟩
  · exact inner node fresh node queued rfl
  · exact apart node (List.mem_append_left _ fresh) node stopped rfl
  · exact apart node (List.mem_append_right _ queued) node stopped rfl

/-- A call that leaves tasks alone and reorders the members keeps the invariant. -/
theorem MembersOk.of_tasks {g g' : Members} {st st' : Tasking} (h : MembersOk g st)
    (queue : Queue st' .mainQueue g'.queued) (distinct : g'.live.Nodup) (sub : g'.live ⊆ g.live)
    (fresh : g'.fresh ⊆ g.fresh) (known : g'.queued ++ g'.stopped ⊆ g.queued ++ g.stopped)
    (tasks : st'.tasks = st.tasks)
    : MembersOk g' st' where
  queue := queue
  distinct := distinct
  tasks := fun node member => h.tasks node (sub member)
  fresh := fun node member => by rw [tasks]; exact h.fresh node (fresh member)
  known := fun node member => by rw [tasks]; exact h.known node (known member)

theorem MembersOk.alloc {g : Members} {st : Tasking} (h : MembersOk g st) {block : Nat}
    (free : .task block ∉ g.live) (task : Task)
    : MembersOk { g with fresh := .task block :: g.fresh } (allocTask block task st) := by
  have other {node : Node} (member : node ∈ g.live) : node ≠ .task block :=
    fun same => free (same ▸ member)
  have status {node : Node} (member : node ∈ g.live)
      : ((allocTask block task st).tasks node).status = (st.tasks node).status := by
    simp only [allocTask, Tasking.setTask, Function.update_of_ne (other member)]
  refine ⟨h.queue.congr (fun node member => ?_), ?_, ?_, ?_, ?_⟩
  · have apart : node ≠ .task block := by
      rcases List.mem_cons.mp member with rfl | inside
      · exact Node.noConfusion
      · exact other (Members.mem_live.mpr (Or.inr (Or.inl inside)))
    simp only [allocTask, Tasking.setTask, Function.update_of_ne apart]
  · exact List.nodup_cons.mpr ⟨free, h.distinct⟩
  · intro node member
    rcases List.mem_cons.mp member with rfl | inside
    · exact ⟨block, rfl⟩
    · exact h.tasks node inside
  · intro node member
    rcases List.mem_cons.mp member with rfl | inside
    · simp [allocTask, Tasking.setTask]
    · rw [status (Members.mem_live.mpr (Or.inl inside))]
      exact h.fresh node inside
  · intro node member
    rw [status (List.mem_append.mp member |> fun m => Members.mem_live.mpr (Or.inr m))]
    exact h.known node member

/-- `runTask` queues a task that was never run, and refuses every other. -/
theorem MembersOk.run {g : Members} {st : Tasking} (h : MembersOk g st) {node : Node}
    (member : node ∈ g.live)
    : MembersOk (g.after (.run node)) (runTask node st).2 := by
  rw [Members.after]
  by_cases fresh : node ∈ g.fresh
  · obtain ⟨notQueued, notStopped⟩ := h.apart.1 fresh
    obtain ⟨id, nextPID, same⟩ := runTask_created (h.fresh node fresh)
    obtain ⟨queue, -⟩ := h.queue.addTail
      (List.not_mem_cons_of_ne_of_not_mem (h.not_head member) notQueued)
    have perm : (g.fresh.erase node ++ (g.queued ++ [node]) ++ g.stopped).Perm g.live := by
      have moved : (g.fresh.erase node ++ (g.queued ++ [node])).Perm (g.fresh ++ g.queued) := by
        rw [← List.append_assoc]
        refine (List.perm_append_singleton _ _).trans ?_
        rw [← List.cons_append]
        exact (List.perm_cons_erase fresh).symm.append_right _
      exact moved.append_right _
    rw [if_pos fresh, same]
    refine ⟨queue.congr (fun _ _ => rfl), perm.nodup_iff.mpr h.distinct,
      fun other inside => h.tasks other (perm.subset inside), ?_, ?_⟩
    · intro other inside
      have distinct : g.fresh.Nodup :=
        (List.nodup_append.mp (List.nodup_append.mp h.distinct).1).1
      obtain ⟨notSame, inside⟩ := (List.Nodup.mem_erase_iff distinct).mp inside
      simp only [Tasking.setTask, Function.update_of_ne notSame]
      exact h.fresh other inside
    · intro other inside
      by_cases same : other = node
      · subst same
        simp [Tasking.setTask]
      · simp only [Tasking.setTask, Function.update_of_ne same]
        refine h.known other ?_
        simpa [same] using inside
  · have started : (st.tasks node).status ≠ .created := by
      refine h.known node (List.mem_append.mpr ?_)
      exact (Members.mem_live.mp member).resolve_left fresh
    have refused : (runTask node st).2 = st := by rw [runTask, if_pos (Or.inl started)]
    rw [if_neg fresh, refused]
    exact h

/-- `stopTask` takes a queued task out, and leaves the queue alone otherwise, when the links of a
stopped task are still those of neighbours.
-/
theorem MembersOk.stopTask {g : Members} {st : Tasking} (h : MembersOk g st) {node : Node}
    (member : node ∈ g.live)
    (harmless : node ∈ g.stopped → UnlinkHarmless st .mainQueue g.queued node)
    : Queue (stopTask node st) .mainQueue (g.queued.erase node)
      ∧ (DeadKernel.stopTask node st).tasks = st.tasks := by
  rw [DeadKernel.stopTask]
  rcases Members.mem_live.mp member with fresh | queued | stopped
  · rw [if_pos (h.fresh node fresh), List.erase_of_not_mem (h.apart.1 fresh).1]
    exact ⟨h.queue, rfl⟩
  · rw [if_neg (h.known node (List.mem_append_left _ queued))]
    exact ⟨(h.queue.delete queued).1, rfl⟩
  · have notQueued : node ∉ g.queued := fun queued => h.apart.2 queued stopped
    rw [if_neg (h.known node (List.mem_append_right _ stopped)), List.erase_of_not_mem notQueued]
    exact ⟨h.queue.unlink_iff.mpr (harmless stopped), rfl⟩

theorem MembersOk.stop {g : Members} {st : Tasking} (h : MembersOk g st) {node : Node}
    (member : node ∈ g.live)
    (harmless : node ∈ g.stopped → UnlinkHarmless st .mainQueue g.queued node)
    : MembersOk (g.after (.stop node)) (DeadKernel.stopTask node st) := by
  obtain ⟨queue, tasks⟩ := h.stopTask member harmless
  rw [Members.after]
  by_cases queued : node ∈ g.queued
  · rw [if_pos queued]
    have perm : (g.queued.erase node ++ node :: g.stopped).Perm (g.queued ++ g.stopped) :=
      List.perm_middle.trans ((List.perm_cons_erase queued).symm.append_right _)
    have whole : Members.live { g with queued := g.queued.erase node, stopped := node :: g.stopped }
        |>.Perm g.live := by
      simp only [Members.live, List.append_assoc]
      exact perm.append_left _
    exact h.of_tasks queue (whole.nodup_iff.mpr h.distinct) whole.subset (List.Subset.refl _)
      perm.subset tasks
  · rw [if_neg queued]
    rw [List.erase_of_not_mem queued] at queue
    exact h.of_tasks queue h.distinct (List.Subset.refl _) (List.Subset.refl _)
      (List.Subset.refl _) tasks

theorem MembersOk.destroy {g : Members} {st : Tasking} (h : MembersOk g st) {node : Node}
    (member : node ∈ g.live)
    (harmless : node ∈ g.stopped → UnlinkHarmless st .mainQueue g.queued node)
    : MembersOk (g.after (.destroy node)) (destroyTask node st) := by
  obtain ⟨queue, tasks⟩ := h.stopTask member harmless
  have sublist : (Members.live (g.after (.destroy node))).Sublist g.live :=
    (List.erase_sublist.append List.erase_sublist).append List.erase_sublist
  refine h.of_tasks (queue.congr (fun _ _ => rfl)) (h.distinct.sublist sublist) sublist.subset
    List.erase_subset (List.Sublist.subset ?_) tasks
  exact List.erase_sublist.append List.erase_sublist

/-- What one proper event preserves. -/
theorem MembersOk.step {g : Members} {st : Tasking} (h : MembersOk g st) {event : MemberEvent}
    (proper : event.Proper g) (holds : UnlinksOnce g st event)
    : MembersOk (g.after event) (event.step st) := by
  cases event with
  | alloc block task => exact h.alloc proper task
  | run node => exact h.run proper
  | stop node => exact h.stop proper holds
  | destroy node => exact h.destroy proper holds

theorem MemberRun.members {start st : Tasking} {g : Members} (run : MemberRun UnlinksOnce start g st)
    : MembersOk g st := by
  induction run with
  | init =>
      refine ⟨⟨?_, by simp⟩, by simp [Members.live], by simp [Members.live], by simp, by simp⟩
      simp [Rings.Ring, Rings.Linked, initListHead, queueLinks]
  | step run event proper holds ih => exact ih.step proper holds

/-- In every run that unlinks stopped tasks only where this is harmless, the run queue is
traversed forwards through exactly the tasks that were run and not since stopped or destroyed,
in the order they were run, and backwards through the reverse.
-/
theorem runQueue_members {start st : Tasking} {g : Members}
    (run : MemberRun UnlinksOnce start g st) {fuel : Nat} (enough : g.queued.length < fuel)
    : walk st.next .mainQueue fuel (st.next .mainQueue) = some g.queued
      ∧ walk st.prev .mainQueue fuel (st.prev .mainQueue) = some g.queued.reverse := by
  have queue := run.members.queue
  have inner := (List.nodup_cons.mp queue.distinct).1
  exact ⟨queue.ring.forward inner enough, queue.ring.backward inner enough⟩

def Tasking.afterEvents (events : List MemberEvent) : Tasking :=
  events.foldl MemberEvent.step (initListHead .mainQueue .zero)

/-- Two tasks are run, and the second is stopped. -/
def oneStopped : Tasking :=
  .afterEvents [.alloc 1 .zero, .run (.task 1), .alloc 2 .zero, .run (.task 2), .stop (.task 2)]

theorem runQueue_members_stopped
    : walk oneStopped.next .mainQueue 2 (oneStopped.next .mainQueue) = some [.task 1]
      ∧ walk oneStopped.prev .mainQueue 2 (oneStopped.prev .mainQueue) = some [.task 1] := by
  have empty : MemberRun UnlinksOnce .zero ⟨[], [], []⟩ (initListHead .mainQueue .zero) := .init
  have first := (empty.step (.alloc 1 .zero)
    (by simp [MemberEvent.Proper, Members.live]) trivial).step (.run (.task 1))
    (by simp [MemberEvent.Proper, Members.live, Members.after]) trivial
  have second := (first.step (.alloc 2 .zero)
    (by simp [MemberEvent.Proper, Members.live, Members.after]) trivial).step (.run (.task 2))
    (by simp [MemberEvent.Proper, Members.live, Members.after]) trivial
  have stopped := second.step (.stop (.task 2))
    (by simp [MemberEvent.Proper, Members.live, Members.after])
    (fun again => absurd again (by simp [Members.after]))
  exact runQueue_members stopped (by decide)

/-- Behind `oneStopped` a third task is run and the second destroyed. -/
def thirdLost : Tasking :=
  .afterEvents [.alloc 1 .zero, .run (.task 1), .alloc 2 .zero, .run (.task 2), .stop (.task 2),
    .alloc 3 .zero, .run (.task 3), .destroy (.task 2)]

/-- Destroying the stopped task unlinks the third one. -/
theorem runQueue_loses
    : MemberRun (fun _ _ _ => True) .zero ⟨[], [.task 1, .task 3], []⟩ thirdLost
      ∧ walk thirdLost.next .mainQueue 3 (thirdLost.next .mainQueue) = some [.task 1] := by
  refine ⟨?_, by decide⟩
  have empty : MemberRun (fun _ _ _ => True) .zero ⟨[], [], []⟩ (initListHead .mainQueue .zero) :=
    .init
  have first := (empty.step (.alloc 1 .zero) (by simp [MemberEvent.Proper, Members.live]) trivial).step (.run (.task 1))
    (by simp [MemberEvent.Proper, Members.live, Members.after]) trivial
  have second := (first.step (.alloc 2 .zero)
    (by simp [MemberEvent.Proper, Members.live, Members.after]) trivial).step (.run (.task 2))
    (by simp [MemberEvent.Proper, Members.live, Members.after]) trivial
  have third := (((second.step (.stop (.task 2))
    (by simp [MemberEvent.Proper, Members.live, Members.after]) trivial).step (.alloc 3 .zero)
    (by simp [MemberEvent.Proper, Members.live, Members.after]) trivial).step (.run (.task 3))
    (by simp [MemberEvent.Proper, Members.live, Members.after]) trivial)
  exact third.step (.destroy (.task 2))
    (by simp [MemberEvent.Proper, Members.live, Members.after]) trivial

end DeadKernel
