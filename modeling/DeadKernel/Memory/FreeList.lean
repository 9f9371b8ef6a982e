import DeadKernel.Memory.HeapLayout
import Mathlib.Data.List.Perm.Subperm

/-! The free list of a heap: a ring of nodes inside the free chunks, in ascending order of
their sizes, with its head in the heap's descriptor. A search from its small end finds the best fit.
-/

namespace DeadKernel

open Words Rings

-----------------------------------------------------------------------------------------
-- Nodes in memory
-----------------------------------------------------------------------------------------

/-- The link words of two nodes do not overlap. -/
def nodesApart (a b : Nat) : Prop := a + 8 ≤ b ∨ b + 8 ≤ a

theorem nodeLinks_lawful : nodeLinks.Lawful nodesApart (· < wordSize) where
  irrefl := fun a h => by
    simp only [nodesApart] at h
    omega
  symm := Or.symm
  next_setNext := fun _ _ _ fits => load32_store32 fits
  prev_setPrev := fun _ _ _ fits => load32_store32 fits
  prev_setNext := fun _ a _ => load32_store32_other (by omega)
  next_setPrev := fun _ a _ => load32_store32_other (by omega)
  next_setNext_apart := fun _ _ _ _ h => load32_store32_other (by simp only [nodesApart] at h; omega)
  prev_setNext_apart := fun _ _ _ _ h => load32_store32_other (by simp only [nodesApart] at h; omega)
  next_setPrev_apart := fun _ _ _ _ h => load32_store32_other (by simp only [nodesApart] at h; omega)
  prev_setPrev_apart := fun _ _ _ _ h => load32_store32_other (by simp only [nodesApart] at h; omega)

/-- The byte belongs to the links of one of the nodes. -/
def onNodes (nodes : List Nat) (byte : Nat) : Prop := ∃ node ∈ nodes, node ≤ byte ∧ byte < node + 8

theorem onNodes.mono {nodes more : List Nat} (sub : nodes ⊆ more) {byte : Nat}
    (h : onNodes nodes byte)
    : onNodes more byte := by
  obtain ⟨node, member, range⟩ := h
  exact ⟨node, sub member, range⟩

theorem setNext_changed {nodes : List Nat} {node : Nat} (member : node ∈ nodes) (m : Mem)
    (target : Nat)
    : ChangedOnly (onNodes nodes) m (nodeLinks.setNext m node target) :=
  .store (fun _ low high => ⟨node, member, low, by omega⟩)

theorem setPrev_changed {nodes : List Nat} {node : Nat} (member : node ∈ nodes) (m : Mem)
    (target : Nat)
    : ChangedOnly (onNodes nodes) m (nodeLinks.setPrev m node target) :=
  .store (fun _ low high => ⟨node, member, by omega, by omega⟩)

theorem join_changed {nodes : List Nat} {left right : Nat} (hl : left ∈ nodes) (hr : right ∈ nodes)
    (m : Mem)
    : ChangedOnly (onNodes nodes) m (nodeLinks.join left right m) :=
  (setPrev_changed hr m left).trans (setNext_changed hl _ right)

theorem link_changed {nodes : List Nat} {new left right : Nat} (hn : new ∈ nodes)
    (hl : left ∈ nodes) (hr : right ∈ nodes) (m : Mem)
    : ChangedOnly (onNodes nodes) m (nodeLinks.link new left right m) :=
  (((setPrev_changed hr m new).trans (setNext_changed hn _ right)).trans
    (setPrev_changed hn _ left)).trans (setNext_changed hl _ new)

-----------------------------------------------------------------------------------------
-- The list
-----------------------------------------------------------------------------------------

/-- The headers and nodes of two chunks do not overlap. -/
def chunksApart (b c : Span) : Prop := b.addr + minChunkSize ≤ c.addr ∨ c.addr + minChunkSize ≤ b.addr

/-- The list head lies outside the chunk's header and node. -/
def headApart (head : Nat) (b : Span) : Prop := head + 8 ≤ b.addr ∨ b.addr + minChunkSize ≤ head

/-- The list at `head` holds the free chunks `free`, in this order. -/
structure FreeList (m : Mem) (head : Nat) (free : List Span) : Prop where
  ring : Ring nodeLinks m head (free.map Span.node)
  sizes : ∀ b ∈ free, chunksize m b.addr = b.size
  sorted : free.Pairwise (fun b c => b.size ≤ c.size)
  apart : free.Pairwise chunksApart
  headApart : ∀ b ∈ free, headApart head b
  fits : ∀ b ∈ free, b.addr + minChunkSize ≤ wordSize
  headFits : head + 8 ≤ wordSize

/-- The node a list part starts with: the head behind the last chunk. -/
def firstNode (head : Nat) : List Span → Nat
  | [] => head
  | b :: _ => b.node

theorem map_node_append (head : Nat) (free : List Span)
    : ∃ rest, free.map Span.node ++ [head] = firstNode head free :: rest := by
  cases free with
  | nil => exact ⟨[], rfl⟩
  | cons b rest => exact ⟨rest.map Span.node ++ [head], rfl⟩

theorem chunkOf_node {b : Span} (fits : b.addr + minChunkSize ≤ wordSize)
    : chunkOf b.node = b.addr := by
  simp only [minChunkSize, wordSize] at fits
  simp only [chunkOf, Span.node, nodeOf]
  rw [sub32_of_le (by simp only [wordSize]; omega) (by omega)]
  omega

section FreeList

variable {m : Mem} {head : Nat} {free : List Span}

theorem FreeList.node_ne_head (h : FreeList m head free) {b : Span} (member : b ∈ free)
    : b.node ≠ head := by
  have apart := h.headApart b member
  simp only [DeadKernel.headApart, minChunkSize, Span.node, nodeOf] at apart ⊢
  omega

/-- Nodes of the list and its head are separated. -/
theorem FreeList.separate (h : FreeList m head free)
    : (head :: free.map Span.node).Pairwise nodesApart := by
  refine .cons ?_ ?_
  · intro node member
    obtain ⟨b, inside, rfl⟩ := List.mem_map.mp member
    have apart := h.headApart b inside
    simp only [DeadKernel.headApart, minChunkSize, nodesApart, Span.node, nodeOf] at apart ⊢
    omega
  · rw [List.pairwise_map]
    refine h.apart.imp (fun apart => ?_)
    simp only [chunksApart, minChunkSize, nodesApart, Span.node, nodeOf] at apart ⊢
    omega

theorem FreeList.fitting (h : FreeList m head free)
    : ∀ node ∈ head :: free.map Span.node, node < wordSize := by
  intro node member
  rcases List.mem_cons.mp member with rfl | inside
  · have fits := h.headFits
    omega
  · obtain ⟨b, known, rfl⟩ := List.mem_map.mp inside
    have fits := h.fits b known
    simp only [minChunkSize, Span.node, nodeOf] at fits ⊢
    omega

/-- Chunks do not overlap, so a list is far shorter than any walk of `listFuel` steps. -/
theorem FreeList.few (h : FreeList m head free) : free.length < listFuel := by
  have distinct : (free.map fun b => b.addr / minChunkSize).Nodup := by
    rw [List.nodup_iff_pairwise_ne, List.pairwise_map]
    refine h.apart.imp (fun apart same => ?_)
    simp only [chunksApart, minChunkSize] at apart same
    omega
  have low : (free.map fun b => b.addr / minChunkSize)
      ⊆ List.range (wordSize / minChunkSize) := by
    intro zone member
    obtain ⟨b, inside, rfl⟩ := List.mem_map.mp member
    have fits := h.fits b inside
    simp only [List.mem_range, minChunkSize, wordSize] at fits ⊢
    omega
  have short := (distinct.subperm low).length_le
  rw [List.length_map, List.length_range] at short
  simp only [minChunkSize, wordSize, listFuel] at short ⊢
  omega

theorem FreeList.listEmpty_iff (h : FreeList m head free)
    : listEmpty head m = true ↔ free = [] := by
  rw [listEmpty, decide_eq_true_eq, h.ring.next_head]
  cases free with
  | nil => simp
  | cons b rest =>
      have other := h.node_ne_head (List.mem_cons_self : b ∈ b :: rest)
      simp [other]

/-- The header of a chunk that is apart from the list is on none of its nodes. -/
theorem headWord_onNodes {m m' : Mem} {nodes : List Nat} {chunk : Nat}
    (changed : ChangedOnly (onNodes nodes) m m')
    (apart : ∀ node ∈ nodes, node + 8 ≤ chunk + 4 ∨ chunk + 8 ≤ node)
    : headWord m' chunk = headWord m chunk := by
  refine headWord_of_changed changed (fun byte word on => ?_)
  obtain ⟨node, member, low, high⟩ := on
  have gap := apart node member
  simp only [wordAt] at word
  omega

/-- The list survives every change that keeps its nodes and the headers of its chunks. -/
theorem FreeList.transport {m' : Mem} (h : FreeList m head free)
    (links : ∀ byte, onNodes (head :: free.map Span.node) byte → m' byte = m byte)
    (sizes : ∀ b ∈ free, chunksize m' b.addr = chunksize m b.addr)
    : FreeList m' head free where
  ring := by
    refine h.ring.transport (fun node member => ?_) (fun node member => ?_)
    · exact load32_congr (fun byte low high => links byte ⟨node, member, low, by omega⟩)
    · exact load32_congr (fun byte low high => links byte ⟨node, member, by omega, by omega⟩)
  sizes := fun b member => (sizes b member).trans (h.sizes b member)
  sorted := h.sorted
  apart := h.apart
  headApart := h.headApart
  fits := h.fits
  headFits := h.headFits

/-- A search from any point of the list stops at the first chunk that is large enough, by
induction over the rest of the list.
-/
theorem firstFitting_spec (size : Nat) {back : List Span}
    (linked : Linked nodeLinks m (back.map Span.node ++ [head]))
    (known : ∀ b ∈ back, b.node ≠ head ∧ chunkOf b.node = b.addr ∧ chunksize m b.addr = b.size)
    {fuel : Nat} (enough : back.length < fuel)
    : ∃ small large, back = small ++ large ∧ (∀ b ∈ small, b.size < size)
        ∧ (∀ b ∈ large.head?, size ≤ b.size)
        ∧ firstFitting size head m fuel (firstNode head back) = some (firstNode head large) := by
  induction back generalizing fuel with
  | nil =>
      obtain ⟨fuel, rfl⟩ : ∃ more, fuel = more + 1 := ⟨fuel - 1, by simp at enough; omega⟩
      exact ⟨[], [], rfl, by simp, by simp, by simp [firstFitting, firstNode]⟩
  | cons b rest ih =>
      obtain ⟨fuel, rfl⟩ : ∃ more, fuel = more + 1 := ⟨fuel - 1, by simp at enough; omega⟩
      obtain ⟨notHead, chunk, sized⟩ := known b List.mem_cons_self
      by_cases fits : size ≤ b.size
      · refine ⟨[], b :: rest, rfl, by simp, by simpa using fits, ?_⟩
        simp only [firstNode, firstFitting, notHead, if_false, chunk, sized, fits, if_true]
      · obtain ⟨tail, tail_eq⟩ := map_node_append head rest
        rw [List.map_cons, List.cons_append, tail_eq] at linked
        obtain ⟨next, -, linked'⟩ := linked
        rw [← tail_eq] at linked'
        have enough' : rest.length < fuel := by simpa using enough
        obtain ⟨small, large, split, smaller, first, found⟩ := ih linked'
          (fun c member => known c (List.mem_cons_of_mem _ member)) enough'
        refine ⟨b :: small, large, by rw [split, List.cons_append], ?_, first, ?_⟩
        · intro c member
          rcases List.mem_cons.mp member with rfl | inside
          · omega
          · exact smaller c inside
        · simp only [firstNode, firstFitting, notHead, if_false, chunk, sized, fits, next]
          exact found

/-- The search that `findSmallestChunk` and `insertChunk` start at the head. -/
theorem FreeList.firstFitting (h : FreeList m head free) (size : Nat)
    : ∃ small large, free = small ++ large ∧ (∀ b ∈ small, b.size < size)
        ∧ (∀ b ∈ large, size ≤ b.size)
        ∧ firstFitting size head m listFuel (nodeLinks.next m head)
          = some (firstNode head large) := by
  obtain ⟨rest, rest_eq⟩ := map_node_append head free
  have ring := h.ring
  rw [Rings.Ring, List.cons_append, rest_eq] at ring
  obtain ⟨next, -, linked⟩ := ring
  rw [← rest_eq] at linked
  obtain ⟨small, large, split, smaller, first, found⟩ := firstFitting_spec size linked
    (fun b member => ⟨h.node_ne_head member, chunkOf_node (h.fits b member), h.sizes b member⟩) h.few
  refine ⟨small, large, split, smaller, ?_, by rw [next, found]⟩
  have sorted := h.sorted
  rw [split] at sorted
  cases large with
  | nil => exact fun _ none => absurd none List.not_mem_nil
  | cons b rest =>
      have least : size ≤ b.size := first b rfl
      intro c member
      rcases List.mem_cons.mp member with rfl | inside
      · exact least
      · have behind := (List.pairwise_append.mp sorted).2.1
        exact least.trans ((List.pairwise_cons.mp behind).1 c inside)

/-- `findSmallestChunk` finds a chunk of least size among the large enough ones, or none. -/
theorem FreeList.findSmallestChunk (h : FreeList m head free) (size : Nat)
    : (findSmallestChunk size head m = some 0 ∧ ∀ b ∈ free, b.size < size)
      ∨ ∃ front b back, free = front ++ b :: back ∧ findSmallestChunk size head m = some b.addr
        ∧ size ≤ b.size ∧ (∀ c ∈ front, c.size < size) := by
  obtain ⟨small, large, split, smaller, larger, found⟩ := h.firstFitting size
  simp only [DeadKernel.findSmallestChunk, found, Option.bind_eq_bind, Option.bind_some]
  cases large with
  | nil =>
      rw [List.append_nil] at split
      exact Or.inl ⟨by simp [firstNode], split ▸ smaller⟩
  | cons b rest =>
      have member : b ∈ free := by simp [split]
      refine Or.inr ⟨small, b, rest, split, ?_, larger b List.mem_cons_self, smaller⟩
      simp [firstNode, h.node_ne_head member, chunkOf_node (h.fits b member)]

/-- The header of a chunk lies on no node of the chunks that are apart from it, nor on its own. -/
theorem headWord_spanNodes {m' : Mem} {spans : List Span}
    (changed : ChangedOnly (onNodes (head :: spans.map Span.node)) m m') {b : Span}
    (aside : DeadKernel.headApart head b) (gaps : ∀ c ∈ spans, c = b ∨ chunksApart c b)
    : headWord m' b.addr = headWord m b.addr := by
  refine headWord_onNodes changed (fun node inside => ?_)
  rcases List.mem_cons.mp inside with rfl | known
  · simp only [DeadKernel.headApart, minChunkSize] at aside
    omega
  · obtain ⟨c, there, rfl⟩ := List.mem_map.mp known
    simp only [Span.node, nodeOf]
    rcases gaps c there with rfl | gap
    · omega
    · simp only [chunksApart, minChunkSize] at gap
      omega

/-- Two chunks of a list of separated chunks are the same or apart. -/
theorem chunksApart_or_eq {spans : List Span} (apart : spans.Pairwise chunksApart) {b c : Span}
    (hb : b ∈ spans) (hc : c ∈ spans)
    : b = c ∨ chunksApart b c := by
  by_cases same : b = c
  · exact Or.inl same
  · have sym : Std.Symm chunksApart := ⟨fun _ _ gap => Or.symm gap⟩
    exact Or.inr (apart.forall hb hc same)

/-- Headers of the list's chunks lie on none of its nodes. -/
theorem FreeList.header_onNodes (h : FreeList m head free) {m' : Mem}
    (changed : ChangedOnly (onNodes (head :: free.map Span.node)) m m') {b : Span}
    (member : b ∈ free)
    : headWord m' b.addr = headWord m b.addr :=
  headWord_spanNodes changed (h.headApart b member)
    (fun _ inside => chunksApart_or_eq h.apart inside member)

-----------------------------------------------------------------------------------------
-- Insertion
-----------------------------------------------------------------------------------------

/-- The node of a chunk that is apart from the list is separated from its nodes. -/
theorem FreeList.separate_cons (h : FreeList m head free) {b : Span}
    (apart : ∀ c ∈ free, chunksApart b c) (aside : DeadKernel.headApart head b)
    : (b.node :: head :: free.map Span.node).Pairwise nodesApart := by
  refine .cons ?_ h.separate
  intro node member
  rcases List.mem_cons.mp member with rfl | inside
  · simp only [DeadKernel.headApart, minChunkSize, nodesApart, Span.node, nodeOf] at aside ⊢
    omega
  · obtain ⟨c, known, rfl⟩ := List.mem_map.mp inside
    have gap := apart c known
    simp only [chunksApart, minChunkSize, nodesApart, Span.node, nodeOf] at gap ⊢
    omega

theorem FreeList.fitting_cons (h : FreeList m head free) {b : Span}
    (fits : b.addr + minChunkSize ≤ wordSize)
    : ∀ node ∈ b.node :: head :: free.map Span.node, node < wordSize := by
  intro node member
  rcases List.mem_cons.mp member with rfl | inside
  · simp only [minChunkSize, Span.node, nodeOf] at fits ⊢
    omega
  · exact h.fitting node inside

/-- Where `insertChunk` cuts the list, and what it stores there. -/
theorem FreeList.insertChunk_stores (h : FreeList m head free) {b : Span}
    (size : chunksize m b.addr = b.size)
    : ∃ front back, free = front ++ back
        ∧ (∀ c ∈ front, c.size < b.size) ∧ (∀ c ∈ back, b.size ≤ c.size)
        ∧ DeadKernel.insertChunk b.addr head m
          = some (nodeLinks.link b.node (nodeLinks.prev m (firstNode head back))
            (firstNode head back) m) := by
  by_cases empty : listEmpty head m = true
  · obtain rfl := h.listEmpty_iff.mp empty
    refine ⟨[], [], rfl, by simp, by simp, ?_⟩
    rw [DeadKernel.insertChunk, if_pos empty]
    rfl
  · obtain ⟨small, large, split, smaller, larger, found⟩ := h.firstFitting b.size
    refine ⟨small, large, split, smaller, larger, ?_⟩
    rw [DeadKernel.insertChunk, if_neg empty, size, found]
    rfl

section Insertion

variable {front back : List Span} {b : Span}

/-- Linking a chunk in between two parts of the list writes on the nodes of the list and on its
own.
-/
theorem FreeList.link_changed (h : FreeList m head (front ++ back))
    : ChangedOnly (onNodes (head :: (b :: (front ++ back)).map Span.node)) m
        (nodeLinks.link b.node (nodeLinks.prev m (firstNode head back)) (firstNode head back) m) := by
  obtain ⟨rest, rest_eq⟩ := map_node_append head back
  have ring := h.ring
  rw [List.map_append] at ring
  have cut : firstNode head back ∈ head :: front.map Span.node ++ back.map Span.node := by
    cases back with
    | nil => exact List.mem_cons_self
    | cons c rest => simp [firstNode]
  have prevMem : nodeLinks.prev m (firstNode head back)
      ∈ head :: front.map Span.node ++ back.map Span.node := by
    obtain ⟨start, left, right, tail, front_eq, back_eq, -, prev_eq, -⟩ := ring.at_gap
    obtain ⟨rfl, -⟩ := List.cons.inj (rest_eq.symm.trans back_eq)
    rw [prev_eq, front_eq]
    simp
  have sub : head :: front.map Span.node ++ back.map Span.node
      ⊆ head :: (b :: (front ++ back)).map Span.node := by
    intro node member
    simp only [List.cons_append, List.mem_cons, List.mem_append, List.map_cons,
      List.map_append] at member ⊢
    tauto
  exact DeadKernel.link_changed (by simp) (sub prevMem) (sub cut) m

/-- A chunk linked in behind the smaller ones is in the list. -/
theorem FreeList.link (h : FreeList m head (front ++ back))
    (apart : ∀ c ∈ front ++ back, chunksApart b c) (aside : DeadKernel.headApart head b)
    (fits : b.addr + minChunkSize ≤ wordSize) (size : chunksize m b.addr = b.size)
    (smaller : ∀ c ∈ front, c.size < b.size) (larger : ∀ c ∈ back, b.size ≤ c.size)
    : FreeList
        (nodeLinks.link b.node (nodeLinks.prev m (firstNode head back)) (firstNode head back) m)
        head (front ++ b :: back) := by
  obtain ⟨rest, rest_eq⟩ := map_node_append head back
  have ring := h.ring
  have separate := h.separate_cons apart aside
  have fitting := h.fitting_cons fits
  rw [List.map_append] at ring separate fitting
  have linked := ring.link nodeLinks_lawful rest_eq separate fitting
  rw [← List.map_cons, ← List.map_append] at linked
  have perm : (front ++ b :: back).Perm (b :: (front ++ back)) := List.perm_middle
  have all : (b :: (front ++ back)).Pairwise chunksApart := .cons apart h.apart
  have headApart : ∀ c ∈ front ++ b :: back, DeadKernel.headApart head c := by
    intro c member
    rcases List.mem_cons.mp (perm.subset member) with rfl | inside
    · exact aside
    · exact h.headApart c inside
  exact {
    ring := linked
    sizes := by
      intro c member
      have known := perm.subset member
      rw [chunksize, headWord_spanNodes h.link_changed (headApart c member)
        (fun d inside => chunksApart_or_eq all inside known), ← chunksize]
      rcases List.mem_cons.mp known with rfl | inside
      · exact size
      · exact h.sizes c inside
    sorted := by
      obtain ⟨frontSorted, backSorted, across⟩ := List.pairwise_append.mp h.sorted
      refine List.pairwise_append.mpr ⟨frontSorted, .cons larger backSorted, ?_⟩
      intro c inFront d inBack
      rcases List.mem_cons.mp inBack with rfl | known
      · exact (smaller c inFront).le
      · exact across c inFront d known
    apart := (perm.pairwise_iff (fun gap => Or.symm gap)).mpr all
    headApart
    fits := by
      intro c member
      rcases List.mem_cons.mp (perm.subset member) with rfl | inside
      · exact fits
      · exact h.fits c inside
    headFits := h.headFits
  }

end Insertion

/-- `insertChunk` puts a chunk in front of the first one that is as large. -/
theorem FreeList.insertChunk (h : FreeList m head free) {b : Span}
    (apart : ∀ c ∈ free, chunksApart b c) (aside : DeadKernel.headApart head b)
    (fits : b.addr + minChunkSize ≤ wordSize) (size : chunksize m b.addr = b.size)
    : ∃ m' front back, DeadKernel.insertChunk b.addr head m = some m' ∧ free = front ++ back
        ∧ FreeList m' head (front ++ b :: back)
        ∧ ChangedOnly (onNodes (head :: (b :: free).map Span.node)) m m' := by
  obtain ⟨front, back, rfl, smaller, larger, stored⟩ := h.insertChunk_stores size
  exact ⟨_, front, back, stored, rfl, h.link apart aside fits size smaller larger,
    h.link_changed⟩

/-- `removeChunk` takes a chunk out and rewrites no node but those that stay. -/
theorem FreeList.removeChunk {front back : List Span} {b : Span}
    (h : FreeList m head (front ++ b :: back))
    : FreeList (removeChunk b.addr m) head (front ++ back)
      ∧ ChangedOnly (onNodes (head :: (front ++ back).map Span.node)) m
        (removeChunk b.addr m) := by
  have sub : (front ++ back).Sublist (front ++ b :: back) :=
    (List.Sublist.refl front).append (List.sublist_cons_self b back)
  have separate := h.separate
  have fitting := h.fitting
  have ring := h.ring
  rw [List.map_append, List.map_cons] at ring separate fitting
  have unlinked := ring.unlink nodeLinks_lawful separate fitting
  rw [← List.map_append] at unlinked
  obtain ⟨start, left, right, rest, front_eq, back_eq, next_eq, prev_eq, -⟩ := ring.around
  have leftMem : nodeLinks.prev m b.node ∈ head :: (front ++ back).map Span.node := by
    have known : nodeLinks.prev m b.node ∈ head :: front.map Span.node := by
      rw [prev_eq, front_eq]
      simp
    rw [List.map_append]
    exact List.mem_append_left (back.map Span.node) known
  have rightMem : nodeLinks.next m b.node ∈ head :: (front ++ back).map Span.node := by
    have known : nodeLinks.next m b.node ∈ back.map Span.node ++ [head] := by
      rw [next_eq, back_eq]
      exact List.mem_cons_self
    rw [List.map_append]
    rcases List.mem_append.mp known with inside | last
    · exact List.mem_cons_of_mem _ (List.mem_append_right _ inside)
    · rw [List.mem_singleton.mp last]
      exact List.mem_cons_self
  have changed : ChangedOnly (onNodes (head :: (front ++ back).map Span.node)) m
      (DeadKernel.removeChunk b.addr m) := join_changed leftMem rightMem m
  have wide : ChangedOnly (onNodes (head :: (front ++ b :: back).map Span.node)) m
      (DeadKernel.removeChunk b.addr m) :=
    changed.mono (fun _ on => on.mono (List.cons_subset_cons _ (List.map_subset _ sub.subset)))
  exact ⟨{
    ring := unlinked
    sizes := by
      intro c member
      have known := sub.subset member
      rw [chunksize, h.header_onNodes wide known]
      exact h.sizes c known
    sorted := h.sorted.sublist sub
    apart := h.apart.sublist sub
    headApart := fun c member => h.headApart c (sub.subset member)
    fits := fun c member => h.fits c (sub.subset member)
    headFits := h.headFits
  }, changed⟩

/-- A walk to the end of the list keeps the highest node seen, by induction over the rest of
the list.
-/
theorem highestNode_spec {back : List Span}
    (linked : Linked nodeLinks m (back.map Span.node ++ [head]))
    (known : ∀ b ∈ back, b.node ≠ head) {fuel : Nat} (enough : back.length < fuel) (top : Nat)
    : ∃ highest, highestNode head m fuel (firstNode head back) top = some highest
        ∧ top ≤ highest ∧ (∀ b ∈ back, b.node ≤ highest)
        ∧ (highest = top ∨ ∃ b ∈ back, b.node = highest) := by
  induction back generalizing fuel top with
  | nil =>
      obtain ⟨fuel, rfl⟩ : ∃ more, fuel = more + 1 := ⟨fuel - 1, by simp at enough; omega⟩
      exact ⟨top, by simp [highestNode, firstNode], le_refl _, by simp, Or.inl rfl⟩
  | cons b rest ih =>
      obtain ⟨fuel, rfl⟩ : ∃ more, fuel = more + 1 := ⟨fuel - 1, by simp at enough; omega⟩
      have notHead := known b List.mem_cons_self
      obtain ⟨tail, tail_eq⟩ := map_node_append head rest
      rw [List.map_cons, List.cons_append, tail_eq] at linked
      obtain ⟨next, -, linked'⟩ := linked
      rw [← tail_eq] at linked'
      have enough' : rest.length < fuel := by simpa using enough
      obtain ⟨highest, found, above, bound, source⟩ := ih linked'
        (fun c member => known c (List.mem_cons_of_mem _ member)) enough'
        (if top < b.node then b.node else top)
      have larger : top ≤ highest ∧ b.node ≤ highest := by
        split at above <;> omega
      refine ⟨highest, ?_, larger.1, ?_, ?_⟩
      · simp only [firstNode, highestNode, notHead, if_false, next]
        exact found
      · intro c member
        rcases List.mem_cons.mp member with rfl | inside
        · exact larger.2
        · exact bound c inside
      · rcases source with same | ⟨c, inside, same⟩
        · split at same
          · exact Or.inr ⟨b, List.mem_cons_self, same.symm⟩
          · exact Or.inl same
        · exact Or.inr ⟨c, List.mem_cons_of_mem _ inside, same⟩

/-- `topNode` finds the highest node of a list, if it has any. -/
theorem FreeList.topNode (h : FreeList m head free)
    : (free = [] ∧ topNode head m = some 0)
      ∨ ∃ b ∈ free, topNode head m = some b.node ∧ ∀ c ∈ free, c.node ≤ b.node := by
  by_cases empty : free = []
  · exact Or.inl ⟨empty, by rw [DeadKernel.topNode, if_pos (h.listEmpty_iff.mpr empty)]⟩
  · right
    have listed : ¬ listEmpty head m = true := fun none => empty (h.listEmpty_iff.mp none)
    obtain ⟨rest, rest_eq⟩ := map_node_append head free
    have ring := h.ring
    rw [Rings.Ring, List.cons_append, rest_eq] at ring
    obtain ⟨next, -, linked⟩ := ring
    rw [← rest_eq] at linked
    obtain ⟨highest, found, -, bound, source⟩ :=
      highestNode_spec linked (fun b member => h.node_ne_head member) h.few 0
    rw [DeadKernel.topNode, if_neg listed, next, found]
    rcases source with zero | ⟨b, member, rfl⟩
    · obtain ⟨b, member⟩ := List.exists_mem_of_ne_nil free empty
      have low := bound b member
      simp only [Span.node, nodeOf] at low
      omega
    · exact ⟨b, member, rfl, bound⟩

-----------------------------------------------------------------------------------------
-- Best fit
-----------------------------------------------------------------------------------------

/-- A chunk that is not on the list: its header and node overlap neither the list head nor a chunk
of the list.
-/
structure Unlisted (head : Nat) (free : List Span) (chunk : Nat) : Prop where
  apart : ∀ b ∈ free, chunk + minChunkSize ≤ b.addr ∨ b.addr + minChunkSize ≤ chunk
  aside : head + 8 ≤ chunk ∨ chunk + minChunkSize ≤ head
  fits : chunk + minChunkSize ≤ wordSize

/-- Insertion puts one more chunk on the list and removal takes one off it, each leaving the list
linked and in order; a search returns a chunk of least size among the large enough ones, or 0 if
there is none.
-/
structure BestFit (m : Mem) (head : Nat) (free : List Span) : Prop where
  insert : ∀ chunk, Unlisted head free chunk → ∃ m' front back,
    DeadKernel.insertChunk chunk head m = some m' ∧ free = front ++ back
      ∧ FreeList m' head (front ++ ⟨chunk, chunksize m chunk⟩ :: back)
  remove : ∀ front b back, free = front ++ b :: back →
    FreeList (DeadKernel.removeChunk b.addr m) head (front ++ back)
  find : ∀ size, ∃ found, DeadKernel.findSmallestChunk size head m = some found
    ∧ (found = 0 ↔ ∀ b ∈ free, b.size < size)
    ∧ (found ≠ 0 → ∃ b ∈ free, b.addr = found ∧ size ≤ b.size
        ∧ ∀ c ∈ free, size ≤ c.size → b.size ≤ c.size)

/-- In a sorted list, the first chunk that is large enough is a smallest one. -/
theorem FreeList.first_least {front back : List Span} {b : Span} {size : Nat}
    (h : FreeList m head (front ++ b :: back)) (small : ∀ c ∈ front, c.size < size)
    : ∀ c ∈ front ++ b :: back, size ≤ c.size → b.size ≤ c.size := by
  intro c member large
  have behind := (List.pairwise_append.mp h.sorted).2.1
  rcases List.mem_append.mp member with inFront | inBack
  · exact absurd large (Nat.not_le_of_lt (small c inFront))
  · rcases List.mem_cons.mp inBack with rfl | later
    · exact le_refl _
    · exact (List.pairwise_cons.mp behind).1 c later

/-- Every sorted free list keeps to best fit. -/
theorem freeList_bestFit (h : FreeList m head free) (present : ∀ b ∈ free, b.addr ≠ 0)
    : BestFit m head free where
  insert := by
    intro chunk unlisted
    obtain ⟨m', front, back, stored, split, list, -⟩ := h.insertChunk
      (b := ⟨chunk, chunksize m chunk⟩) unlisted.apart unlisted.aside unlisted.fits rfl
    exact ⟨m', front, back, stored, split, list⟩
  remove := by
    rintro front b back rfl
    exact h.removeChunk.1
  find := by
    intro size
    rcases h.findSmallestChunk size with ⟨found, none⟩ | ⟨front, b, back, rfl, found, large, small⟩
    · exact ⟨0, found, iff_of_true rfl none, fun some_ => absurd rfl some_⟩
    · have member : b ∈ front ++ b :: back := by simp
      refine ⟨b.addr, found, iff_of_false (present b member) (fun none => ?_), fun _ => ?_⟩
      · exact absurd large (Nat.not_le_of_lt (none b member))
      · exact ⟨b, member, rfl, large, h.first_least small⟩

end FreeList

/-- A list head at address 0 with chunks of 16 and 32 bytes at 16 and 32, and the header of a
chunk of 24 bytes at 64.
-/
def twoChunks : Mem := fun byte =>
  if byte = 0 then 24 else if byte = 4 then 40
  else if byte = 20 then 16 else if byte = 24 then 40
  else if byte = 36 then 32 else if byte = 44 then 24
  else if byte = 68 then 24 else 0

/-- The chunk at 64 can be put on that list, which keeps to best fit. -/
theorem freeList_bestFit_twoChunks
    : Unlisted 0 [⟨16, 16⟩, ⟨32, 32⟩] 64 ∧ BestFit twoChunks 0 [⟨16, 16⟩, ⟨32, 32⟩] := by
  refine ⟨⟨by decide, by decide, by decide⟩, freeList_bestFit ?_ (by decide)⟩
  exact {
    ring := ⟨rfl, rfl, rfl, rfl, rfl, rfl, trivial⟩
    sizes := by decide
    sorted := by decide
    apart := by simp [chunksApart, minChunkSize]
    headApart := by simp [headApart]
    fits := by decide
    headFits := by decide
  }

end DeadKernel
