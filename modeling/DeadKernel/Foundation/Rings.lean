import Mathlib.Data.List.Chain
import Mathlib.Data.List.Infix
import Mathlib.Data.List.Nodup
import Mathlib.Data.List.Pairwise

/-! Intrusive circular doubly linked lists over an arbitrary store.
A node carries its own forward and backward link, so membership of a list is a fact
about the store. Nodes may share the store with anything else: the only law is that
the links of separated nodes do not disturb each other.
-/

namespace Rings

variable {M α : Type}

/-- The four accesses that an intrusive list makes to the store holding its nodes. -/
structure LinkStore (M α : Type) where
  next : M → α → α
  prev : M → α → α
  setNext : M → α → α → M
  setPrev : M → α → α → M

/-- Reading a link back after writing one. `apart` says that the link fields of two nodes
do not overlap, `fits` that a node name can be stored in a link field.
-/
structure LinkStore.Lawful (s : LinkStore M α) (apart : α → α → Prop) (fits : α → Prop)
    : Prop where
  irrefl : ∀ a, ¬ apart a a
  symm : ∀ {a b}, apart a b → apart b a
  next_setNext : ∀ m a v, fits v → s.next (s.setNext m a v) a = v
  prev_setPrev : ∀ m a v, fits v → s.prev (s.setPrev m a v) a = v
  prev_setNext : ∀ m a v, s.prev (s.setNext m a v) a = s.prev m a
  next_setPrev : ∀ m a v, s.next (s.setPrev m a v) a = s.next m a
  next_setNext_apart : ∀ m a b v, apart a b → s.next (s.setNext m a v) b = s.next m b
  prev_setNext_apart : ∀ m a b v, apart a b → s.prev (s.setNext m a v) b = s.prev m b
  next_setPrev_apart : ∀ m a b v, apart a b → s.next (s.setPrev m a v) b = s.next m b
  prev_setPrev_apart : ∀ m a b v, apart a b → s.prev (s.setPrev m a v) b = s.prev m b

/-- Make `left` and `right` neighbours, dropping whatever stood between them. -/
def LinkStore.join (s : LinkStore M α) (left right : α) (m : M) : M :=
  s.setNext (s.setPrev m right left) left right

/-- Put `new` between `left` and `right`. -/
def LinkStore.link (s : LinkStore M α) (new left right : α) (m : M) : M :=
  let m := s.setPrev m right new
  let m := s.setNext m new right
  let m := s.setPrev m new left
  s.setNext m left new

/-- Neighbours in the list are linked both ways in the store. -/
def Linked (s : LinkStore M α) (m : M) : List α → Prop
  | left :: right :: rest =>
      s.next m left = right ∧ s.prev m right = left ∧ Linked s m (right :: rest)
  | _ => True

/-- The circular list with head node `head` and members `nodes`, in forward order. -/
def Ring (s : LinkStore M α) (m : M) (head : α) (nodes : List α) : Prop :=
  Linked s m (head :: nodes ++ [head])

variable {s : LinkStore M α} {apart : α → α → Prop} {fits : α → Prop}

/-- A linked sequence splits at any node, by induction over the first part. -/
theorem linked_append {m : M} (front : List α) (node : α) (back : List α)
    : Linked s m (front ++ node :: back)
      ↔ Linked s m (front ++ [node]) ∧ Linked s m (node :: back) := by
  induction front with
  | nil => simp [Linked]
  | cons first rest ih =>
      cases rest with
      | nil => simp [Linked, and_assoc]
      | cons second rest =>
          simp only [List.cons_append, Linked] at ih ⊢
          rw [ih]
          simp only [and_assoc]

/-- A linked sequence survives every change that keeps the forward link of all but its
last node and the backward link of all but its first, by induction over the sequence.
-/
theorem Linked.transport {m m' : M} {nodes : List α} (h : Linked s m nodes)
    (forward : ∀ node ∈ nodes.dropLast, s.next m' node = s.next m node)
    (backward : ∀ node ∈ nodes.tail, s.prev m' node = s.prev m node)
    : Linked s m' nodes := by
  induction nodes with
  | nil => trivial
  | cons first rest ih =>
      cases rest with
      | nil => trivial
      | cons second rest =>
          obtain ⟨hn, hp, hr⟩ := h
          refine ⟨?_, ?_, ih hr ?_ ?_⟩
          · rw [forward first (by simp), hn]
          · rw [backward second (by simp), hp]
          · intro node member
            exact forward node (by simp [List.dropLast_cons_of_ne_nil, member])
          · intro node member
            exact backward node (by simp only [List.tail_cons] at member ⊢; simp [member])

/-- Two stores in which the same sequence is linked agree on its links, by induction over the
sequence.
-/
theorem Linked.agree {m m' : M} {nodes : List α} (h : Linked s m nodes) (h' : Linked s m' nodes)
    : (∀ node ∈ nodes.dropLast, s.next m' node = s.next m node)
      ∧ ∀ node ∈ nodes.tail, s.prev m' node = s.prev m node := by
  induction nodes with
  | nil => simp
  | cons first rest ih =>
      cases rest with
      | nil => simp
      | cons second rest =>
          obtain ⟨hn, hp, hr⟩ := h
          obtain ⟨hn', hp', hr'⟩ := h'
          obtain ⟨forward, backward⟩ := ih hr hr'
          refine ⟨fun node member => ?_, fun node member => ?_⟩
          · rcases List.mem_cons.mp member with rfl | inside
            · rw [hn, hn']
            · exact forward node inside
          · rcases List.mem_cons.mp member with rfl | inside
            · rw [hp, hp']
            · exact backward node inside

/-- A chain from `first` to the end goes on with what stands behind `first`. -/
theorem chain_next {step : α → α} {first head : α} {nodes : List α}
    (chain : (first :: (nodes ++ [head])).IsChain (fun a b => step a = b))
    : step first = (nodes ++ [head]).head (by simp) := by
  cases nodes with
  | nil => simpa using chain
  | cons second rest => exact (List.isChain_cons_cons.mp chain).1

/-- Follow links from `iter` until they lead to the head, for `fuel` rounds at most. -/
def walk [DecidableEq α] (step : α → α) (head : α) : Nat → α → Option (List α)
  | 0, _ => none
  | fuel + 1, iter =>
      if iter = head then some [] else (walk step head fuel (step iter)).map (iter :: ·)

/-- A walk along a chain meets its members, by induction over the chain. -/
theorem walk_chain [DecidableEq α] {step : α → α} {head : α} {nodes : List α}
    (chain : (nodes ++ [head]).IsChain (fun a b => step a = b)) (inner : head ∉ nodes)
    {fuel : Nat} (enough : nodes.length < fuel)
    : walk step head fuel ((nodes ++ [head]).head (by simp)) = some nodes := by
  induction nodes generalizing fuel with
  | nil =>
      obtain ⟨fuel, rfl⟩ : ∃ more, fuel = more + 1 := ⟨fuel - 1, by simp at enough; omega⟩
      simp [walk]
  | cons first rest ih =>
      obtain ⟨fuel, rfl⟩ : ∃ more, fuel = more + 1 := ⟨fuel - 1, by simp at enough; omega⟩
      have notFirst : first ≠ head := fun same => inner (by simp [same])
      have next := chain_next chain
      have tail : (rest ++ [head]).IsChain (fun a b => step a = b) := List.IsChain.tail chain
      have found : walk step head fuel ((rest ++ [head]).head (by simp)) = some rest :=
        ih tail (fun again => inner (List.mem_cons_of_mem _ again)) (by simpa using enough)
      simp only [List.cons_append, List.head_cons, walk, notFirst, if_false, next, found,
        Option.map_some]

theorem Linked.chain {m : M} {nodes : List α} (h : Linked s m nodes)
    : nodes.IsChain (fun a b => s.next m a = b) ∧ nodes.IsChain (fun a b => s.prev m b = a) := by
  induction nodes with
  | nil => simp
  | cons first rest ih =>
      cases rest with
      | nil => simp
      | cons second rest =>
          obtain ⟨hn, hp, hr⟩ := h
          obtain ⟨forward, backward⟩ := ih hr
          exact ⟨List.isChain_cons_cons.mpr ⟨hn, forward⟩, List.isChain_cons_cons.mpr ⟨hp, backward⟩⟩

/-- A ring is traversed forwards in its order. -/
theorem Ring.forward [DecidableEq α] {m : M} {head : α} {nodes : List α} (h : Ring s m head nodes)
    (inner : head ∉ nodes) {fuel : Nat} (enough : nodes.length < fuel)
    : walk (s.next m) head fuel (s.next m head) = some nodes := by
  have chain : (nodes ++ [head]).IsChain (fun a b => s.next m a = b) := List.IsChain.tail h.chain.1
  rw [chain_next h.chain.1]
  exact walk_chain chain inner enough

/-- A ring is traversed backwards in the reverse order. -/
theorem Ring.backward [DecidableEq α] {m : M} {head : α} {nodes : List α}
    (h : Ring s m head nodes) (inner : head ∉ nodes) {fuel : Nat} (enough : nodes.length < fuel)
    : walk (s.prev m) head fuel (s.prev m head) = some nodes.reverse := by
  have whole : (head :: (nodes.reverse ++ [head])).IsChain (fun a b => s.prev m a = b) := by
    have reversed := List.isChain_reverse.mpr h.chain.2
    simpa using reversed
  have chain : (nodes.reverse ++ [head]).IsChain (fun a b => s.prev m a = b) :=
    List.IsChain.tail whole
  rw [chain_next whole]
  exact walk_chain chain (by simpa using inner) (by simpa using enough)

/-- An intact ring survives every change that keeps the links of all its nodes. -/
theorem Ring.transport {m m' : M} {head : α} {nodes : List α} (h : Ring s m head nodes)
    (forward : ∀ node ∈ head :: nodes, s.next m' node = s.next m node)
    (backward : ∀ node ∈ head :: nodes, s.prev m' node = s.prev m node)
    : Ring s m' head nodes := by
  have known {node} (member : node ∈ head :: nodes ++ [head]) : node ∈ head :: nodes := by
    rcases List.mem_append.mp member with member | last
    · exact member
    · exact List.mem_cons.mpr (Or.inl (List.mem_singleton.mp last))
  apply Linked.transport h
  · intro node member
    exact forward node (known (List.mem_of_mem_dropLast member))
  · intro node member
    exact backward node (known (List.mem_of_mem_tail member))

/-- The node after the head of a ring is its first member, or the head when there is none.
-/
theorem Ring.next_head {m : M} {head : α} {nodes : List α} (h : Ring s m head nodes)
    : s.next m head = (nodes ++ [head]).head (by simp) := by
  cases nodes with
  | nil => exact h.1
  | cons first rest => exact h.1

/-- A ring around a member: both its links, and the two parts it separates.
Witness: split the linked sequence at the last node of the front part.
-/
theorem Ring.around {m : M} {head node : α} {front back : List α}
    (h : Ring s m head (front ++ node :: back))
    : ∃ start left right rest,
        head :: front = start ++ [left] ∧ back ++ [head] = right :: rest
        ∧ s.next m node = right ∧ s.prev m node = left
        ∧ Linked s m (start ++ [left]) ∧ Linked s m (right :: rest) := by
  obtain ⟨start, left, front_eq⟩ : ∃ start left, head :: front = start ++ [left] :=
    ⟨_, _, (List.dropLast_append_getLast (by simp : head :: front ≠ [])).symm⟩
  obtain ⟨right, rest, back_eq⟩ : ∃ right rest, back ++ [head] = right :: rest :=
    List.exists_cons_of_ne_nil (by simp)
  have linked : Linked s m (start ++ left :: node :: right :: rest) := by
    have shape : head :: (front ++ node :: back) ++ [head]
        = start ++ left :: node :: right :: rest := by
      rw [← back_eq, ← List.cons_append, front_eq]
      simp
    simpa only [Ring, shape] using h
  obtain ⟨before, after⟩ := (linked_append start left _).mp linked
  exact ⟨start, left, right, rest, front_eq, back_eq, after.2.2.1, after.2.1, before,
    after.2.2.2.2⟩

/-- A ring at a gap between two members, seen as its two parts. -/
theorem Ring.at_gap {m : M} {head : α} {front back : List α}
    (h : Ring s m head (front ++ back))
    : ∃ start left right rest,
        head :: front = start ++ [left] ∧ back ++ [head] = right :: rest
        ∧ s.next m left = right ∧ s.prev m right = left
        ∧ Linked s m (start ++ [left]) ∧ Linked s m (right :: rest) := by
  obtain ⟨start, left, front_eq⟩ : ∃ start left, head :: front = start ++ [left] :=
    ⟨_, _, (List.dropLast_append_getLast (by simp : head :: front ≠ [])).symm⟩
  obtain ⟨right, rest, back_eq⟩ : ∃ right rest, back ++ [head] = right :: rest :=
    List.exists_cons_of_ne_nil (by simp)
  have linked : Linked s m (start ++ left :: right :: rest) := by
    have shape : head :: (front ++ back) ++ [head] = start ++ left :: right :: rest := by
      rw [← back_eq, ← List.cons_append, front_eq]
      simp
    simpa only [Ring, shape] using h
  obtain ⟨before, after⟩ := (linked_append start left _).mp linked
  exact ⟨start, left, right, rest, front_eq, back_eq, after.1, after.2.1, before, after.2.2⟩

/-- Two parts whose seam is linked both ways form a ring. -/
theorem Ring.of_seam {m : M} {head left right : α} {front back start rest : List α}
    (front_eq : head :: front = start ++ [left]) (back_eq : back ++ [head] = right :: rest)
    (before : Linked s m (start ++ [left])) (after : Linked s m (right :: rest))
    (forward : s.next m left = right) (backward : s.prev m right = left)
    : Ring s m head (front ++ back) := by
  have shape : head :: (front ++ back) ++ [head] = start ++ left :: right :: rest := by
    rw [← back_eq, ← List.cons_append, front_eq]
    simp
  rw [Ring, shape]
  exact (linked_append start left _).mpr ⟨before, forward, backward, after⟩

/-- Members of a list of separated nodes are equal or separated, by symmetry. -/
theorem LinkStore.Lawful.near (lawful : s.Lawful apart fits) {nodes : List α}
    (separate : nodes.Pairwise apart) {a b : α} (ha : a ∈ nodes) (hb : b ∈ nodes)
    : a = b ∨ apart a b := by
  by_cases same : a = b
  · exact Or.inl same
  · have : Std.Symm apart := ⟨fun _ _ h => lawful.symm h⟩
    exact Or.inr (separate.forall ha hb same)

section Join

variable (lawful : s.Lawful apart fits) {m : M} {left right node : α}
include lawful

/-- Joining leaves the forward link of every other node alone. -/
theorem LinkStore.Lawful.next_join (hl : apart left node) (hr : right = node ∨ apart right node)
    : s.next (s.join left right m) node = s.next m node := by
  rw [LinkStore.join, lawful.next_setNext_apart _ _ _ _ hl]
  rcases hr with rfl | hr
  · exact lawful.next_setPrev _ _ _
  · exact lawful.next_setPrev_apart _ _ _ _ hr

/-- Joining leaves the backward link of every other node alone. -/
theorem LinkStore.Lawful.prev_join (hl : left = node ∨ apart left node) (hr : apart right node)
    : s.prev (s.join left right m) node = s.prev m node := by
  rw [LinkStore.join, ← lawful.prev_setPrev_apart m right node left hr]
  rcases hl with rfl | hl
  · exact lawful.prev_setNext _ _ _
  · exact lawful.prev_setNext_apart _ _ _ _ hl

/-- Joining links the left node forwards. -/
theorem LinkStore.Lawful.next_join_left (hf : fits right)
    : s.next (s.join left right m) left = right :=
  lawful.next_setNext _ _ _ hf

/-- Joining links the right node backwards. -/
theorem LinkStore.Lawful.prev_join_right (hf : fits left) (near : left = right ∨ apart left right)
    : s.prev (s.join left right m) right = left := by
  rw [LinkStore.join]
  rcases near with rfl | near
  · rw [lawful.prev_setNext, lawful.prev_setPrev _ _ _ hf]
  · rw [lawful.prev_setNext_apart _ _ _ _ near, lawful.prev_setPrev _ _ _ hf]

/-- Joining two nodes of a list of separated nodes keeps every linked part that does not
look forwards from the left one nor backwards from the right one.
-/
theorem LinkStore.Lawful.linked_join {all part : List α} (separate : all.Pairwise apart)
    (hl : left ∈ all) (hr : right ∈ all) (sub : ∀ node ∈ part, node ∈ all)
    (notLeft : left ∉ part.dropLast) (notRight : right ∉ part.tail) (h : Linked s m part)
    : Linked s (s.join left right m) part := by
  apply h.transport
  · intro node member
    have known := sub node (List.mem_of_mem_dropLast member)
    refine lawful.next_join ?_ (lawful.near separate hr known)
    exact (lawful.near separate hl known).resolve_left (fun same => notLeft (same ▸ member))
  · intro node member
    have known := sub node (List.mem_of_mem_tail member)
    refine lawful.prev_join (lawful.near separate hl known) ?_
    exact (lawful.near separate hr known).resolve_left (fun same => notRight (same ▸ member))

end Join

/-- Separated nodes are distinct. -/
theorem LinkStore.Lawful.nodup (lawful : s.Lawful apart fits) {nodes : List α}
    (separate : nodes.Pairwise apart)
    : nodes.Nodup := by
  apply List.Pairwise.imp _ separate
  rintro a b h rfl
  exact lawful.irrefl a h

/-- The seam of a duplicate-free ring repeats no node that a change at the seam rewrites. -/
private theorem seam_fresh {head left right : α} {front back start rest : List α}
    (front_eq : head :: front = start ++ [left]) (back_eq : back ++ [head] = right :: rest)
    (distinct : (head :: (front ++ back)).Nodup)
    : (left ∉ (start ++ [left]).dropLast ∧ left ∉ (right :: rest).dropLast)
      ∧ right ∉ (start ++ [left]).tail ∧ right ∉ (right :: rest).tail := by
  simp only [List.nodup_cons, List.nodup_append, List.mem_append, not_or] at distinct
  obtain ⟨⟨notFront, notBack⟩, frontNodup, backNodup, separate⟩ := distinct
  have whole : (head :: front).Nodup := List.nodup_cons.mpr ⟨notFront, frontNodup⟩
  have closed : (back ++ [head]).Nodup := by
    simp only [List.nodup_append, List.mem_singleton]
    exact ⟨backNodup, by simp, fun a ha b hb same => notBack (by rw [← hb, ← same]; exact ha)⟩
  have leftMem : left ∈ head :: front := by simp [front_eq]
  have rightMem : right ∈ back ++ [head] := by simp [back_eq]
  refine ⟨⟨?_, ?_⟩, ?_, ?_⟩
  · rw [front_eq] at whole
    simp only [List.dropLast_concat]
    intro again
    exact (List.nodup_append.mp whole).2.2 left again left (by simp) rfl
  · rw [← back_eq, List.dropLast_concat]
    intro again
    rcases List.mem_cons.mp leftMem with rfl | member
    · exact notBack again
    · exact separate left member left again rfl
  · rw [← front_eq, List.tail_cons]
    intro again
    rcases List.mem_append.mp rightMem with member | last
    · exact separate right again right member rfl
    · exact notFront (List.mem_singleton.mp last ▸ again)
  · rw [back_eq] at closed
    exact (List.nodup_cons.mp closed).1

/-- Both parts at a seam consist of nodes of the ring. -/
private theorem seam_within {head left right : α} {front back start rest : List α}
    (front_eq : head :: front = start ++ [left]) (back_eq : back ++ [head] = right :: rest)
    : ∀ n, n ∈ start ++ [left] ∨ n ∈ right :: rest → n ∈ head :: (front ++ back) := by
  intro n member
  rw [← front_eq, ← back_eq] at member
  simp only [List.mem_cons, List.mem_append, List.not_mem_nil, or_false] at member ⊢
  tauto

/-- Unlinking a member leaves the ring of the others.
Witness: both parts keep their links, and the join closes the seam.
-/
theorem Ring.unlink (lawful : s.Lawful apart fits) {m : M} {head node : α}
    {front back : List α} (h : Ring s m head (front ++ node :: back))
    (separate : (head :: (front ++ node :: back)).Pairwise apart)
    (fitting : ∀ n ∈ head :: (front ++ node :: back), fits n)
    : Ring s (s.join (s.prev m node) (s.next m node) m) head (front ++ back) := by
  obtain ⟨start, left, right, rest, front_eq, back_eq, next_eq, prev_eq, before, after⟩ :=
    h.around
  have shorter : (head :: (front ++ back)).Sublist (head :: (front ++ node :: back)) :=
    ((List.Sublist.refl front).append (List.sublist_cons_self node back)).cons_cons head
  have fresh := seam_fresh front_eq back_eq (lawful.nodup (separate.sublist shorter))
  have within := seam_within front_eq back_eq
  have leftMem : left ∈ head :: (front ++ back) := within left (Or.inl (by simp))
  have rightMem : right ∈ head :: (front ++ back) := within right (Or.inr (by simp))
  have separate' := separate.sublist shorter
  rw [next_eq, prev_eq]
  refine Ring.of_seam front_eq back_eq ?_ ?_ ?_ ?_
  · exact lawful.linked_join separate' leftMem rightMem (fun n hn => within n (Or.inl hn))
      fresh.1.1 fresh.2.1 before
  · exact lawful.linked_join separate' leftMem rightMem (fun n hn => within n (Or.inr hn))
      fresh.1.2 fresh.2.2 after
  · exact lawful.next_join_left (fitting right (shorter.subset rightMem))
  · exact lawful.prev_join_right (fitting left (shorter.subset leftMem))
      (lawful.near separate' leftMem rightMem)

/-- Linking is two joins' worth of writes: the new node gets its own links, and the old
neighbours are joined to it.
-/
theorem LinkStore.Lawful.linked_link (lawful : s.Lawful apart fits) {m : M}
    {left right new : α} {all part : List α} (separate : (new :: all).Pairwise apart)
    (hl : left ∈ all) (hr : right ∈ all) (sub : ∀ node ∈ part, node ∈ all)
    (notLeft : left ∉ part.dropLast) (notRight : right ∉ part.tail) (h : Linked s m part)
    : Linked s (s.link new left right m) part := by
  have aside {node} (member : node ∈ all) : apart new node :=
    (List.pairwise_cons.mp separate).1 node member
  have inner := (List.pairwise_cons.mp separate).2
  apply h.transport
  · intro node member
    have known := sub node (List.mem_of_mem_dropLast member)
    have hleft : apart left node :=
      (lawful.near inner hl known).resolve_left (fun same => notLeft (same ▸ member))
    rw [LinkStore.link, lawful.next_setNext_apart _ _ _ _ hleft,
      lawful.next_setPrev_apart _ _ _ _ (aside known),
      lawful.next_setNext_apart _ _ _ _ (aside known)]
    rcases lawful.near inner hr known with rfl | hright
    · exact lawful.next_setPrev _ _ _
    · exact lawful.next_setPrev_apart _ _ _ _ hright
  · intro node member
    have known := sub node (List.mem_of_mem_tail member)
    have hright : apart right node :=
      (lawful.near inner hr known).resolve_left (fun same => notRight (same ▸ member))
    have tail : s.prev (s.setPrev (s.setNext (s.setPrev m right new) new right) new left) node
        = s.prev m node := by
      rw [lawful.prev_setPrev_apart _ _ _ _ (aside known),
        lawful.prev_setNext_apart _ _ _ _ (aside known),
        lawful.prev_setPrev_apart _ _ _ _ hright]
    rw [LinkStore.link, ← tail]
    rcases lawful.near inner hl known with rfl | hleft
    · exact lawful.prev_setNext _ _ _
    · exact lawful.prev_setNext_apart _ _ _ _ hleft

/-- Linking a new node in front of the part `back` puts it between the two parts.
Witness: both parts keep their links, and the new node closes the seam on both sides.
-/
theorem Ring.link (lawful : s.Lawful apart fits) {m : M} {head new right : α}
    {front back rest : List α} (h : Ring s m head (front ++ back))
    (at_right : back ++ [head] = right :: rest)
    (separate : (new :: head :: (front ++ back)).Pairwise apart)
    (fitting : ∀ n ∈ new :: head :: (front ++ back), fits n)
    : Ring s (s.link new (s.prev m right) right m) head (front ++ new :: back) := by
  obtain ⟨start, left, right', rest', front_eq, back_eq, -, prev_eq, before, after⟩ := h.at_gap
  obtain ⟨rfl, rfl⟩ := List.cons.inj (at_right.symm.trans back_eq)
  have inner := (List.pairwise_cons.mp separate).2
  have fresh := seam_fresh front_eq back_eq (lawful.nodup inner)
  have within := seam_within front_eq back_eq
  have leftMem : left ∈ head :: (front ++ back) := within left (Or.inl (by simp))
  have rightMem : right ∈ head :: (front ++ back) := within right (Or.inr (by simp))
  have newLeft : apart new left := (List.pairwise_cons.mp separate).1 left leftMem
  have newRight : apart new right := (List.pairwise_cons.mp separate).1 right rightMem
  rw [prev_eq]
  have front' : Linked s (s.link new left right m) (start ++ [left]) :=
    lawful.linked_link separate leftMem rightMem (fun n hn => within n (Or.inl hn))
      fresh.1.1 fresh.2.1 before
  have back' : Linked s (s.link new left right m) (right :: rest) :=
    lawful.linked_link separate leftMem rightMem (fun n hn => within n (Or.inr hn))
      fresh.1.2 fresh.2.2 after
  have closed : new :: back ++ [head] = new :: right :: rest := by rw [List.cons_append, back_eq]
  refine Ring.of_seam front_eq closed front' ⟨?_, ?_, back'⟩ ?_ ?_
  · rw [LinkStore.link, lawful.next_setNext_apart _ _ _ _ (lawful.symm newLeft),
      lawful.next_setPrev, lawful.next_setNext _ _ _ (fitting right (by simp_all))]
  · have inserted : s.prev (s.setPrev (s.setNext (s.setPrev m right new) new right) new left)
        right = new := by
      rw [lawful.prev_setPrev_apart _ _ _ _ newRight, lawful.prev_setNext_apart _ _ _ _ newRight,
        lawful.prev_setPrev _ _ _ (fitting new (by simp))]
    rw [LinkStore.link]
    rcases lawful.near inner leftMem rightMem with rfl | near
    · rw [lawful.prev_setNext, inserted]
    · rw [lawful.prev_setNext_apart _ _ _ _ near, inserted]
  · rw [LinkStore.link, lawful.next_setNext _ _ _ (fitting new (by simp))]
  · rw [LinkStore.link, lawful.prev_setNext_apart _ _ _ _ (lawful.symm newLeft),
      lawful.prev_setPrev _ _ _ (fitting left (List.mem_cons_of_mem _ leftMem))]

end Rings
