import BadOs.Common
import BadOs.Data.DoubleChain
import BadOs.Data.Keyed

/-!
# `util/list.c`

The nodes are objects on the heap. Their addresses are what `kmem_alloc` returns, which may
be any that is not allocated, also one that was freed before.
-/

namespace BadOs

/-- `list_node`. -/
structure ListNode (α : Type) where
  prev : Nat
  next : Nat
  payload : α

/-- `list_t`. -/
structure ListT where
  head : Nat
  tail : Nat
  deriving DecidableEq

/-- The list nodes on the heap, the addresses of all that is allocated, and what was freed,
in order. Address zero is the null pointer. -/
structure NodeHeap (α : Type) where
  nodes : Nat → ListNode α
  live : List Nat
  freed : List Nat

variable {α : Type}

namespace NodeHeap

def next (h : NodeHeap α) (p : Nat) : Nat := (h.nodes p).next

def prev (h : NodeHeap α) (p : Nat) : Nat := (h.nodes p).prev

/-- Store to a node. -/
def set (h : NodeHeap α) (p : Nat) (e : ListNode α) : NodeHeap α :=
  { h with nodes := Function.update h.nodes p e }

/-- An access to a node that is not allocated is a trap. -/
def load (h : NodeHeap α) (p : Nat) : Except Trap (ListNode α) :=
  if p ∈ h.live then .ok (h.nodes p) else .error .useAfterFree

/-- Change some fields of a node. -/
def modify (p : Nat) (f : ListNode α → ListNode α) (h : NodeHeap α) :
    Except Trap (NodeHeap α) := do
  let e ← h.load p
  return h.set p (f e)

/-- `p->next = n` -/
def setNext (p n : Nat) : NodeHeap α → Except Trap (NodeHeap α) :=
  modify p fun e => { e with next := n }

/-- `p->prev = n` -/
def setPrev (p n : Nat) : NodeHeap α → Except Trap (NodeHeap α) :=
  modify p fun e => { e with prev := n }

/-- `p->payload = payload` -/
def setPayload (p : Nat) (payload : α) : NodeHeap α → Except Trap (NodeHeap α) :=
  modify p fun e => { e with payload := payload }

/-- `kmem_alloc` returned `p`. -/
def kmemAlloc (p : Nat) (h : NodeHeap α) : NodeHeap α := { h with live := p :: h.live }

def kmemFree (p : Nat) (h : NodeHeap α) : Except Trap (NodeHeap α) :=
  if p ∈ h.live then .ok { h with live := h.live.erase p, freed := h.freed ++ [p] }
  else .error .useAfterFree

end NodeHeap

def listCreate : ListT := ⟨0, 0⟩

/-- `node` is what `kmem_alloc` returns. -/
def listAppend (list : ListT) (payload : α) (node : Nat) (h : NodeHeap α) :
    Except Trap (ListT × NodeHeap α) := do
  let h ← (h.kmemAlloc node).setPayload node payload
  if list.tail = 0 then
    let h ← h.setPrev node 0
    let h ← h.setNext node 0
    return (⟨node, node⟩, h)
  else
    let h ← h.setPrev node list.tail
    let h ← h.setNext list.tail node
    let h ← h.setNext node 0
    return ({ list with tail := node }, h)

/-- The fields of the node are read again after the first store. -/
def listRemoveNode (list : ListT) (node : Nat) (h : NodeHeap α) :
    Except Trap (ListT × NodeHeap α) := do
  let e ← h.load node
  let head := if list.head = node then e.next else list.head
  let tail := if list.tail = node then e.prev else list.tail
  let h ← (if e.prev = 0 then .ok h else h.setNext e.prev e.next)
  let e ← h.load node
  let h ← (if e.next = 0 then .ok h else h.setPrev e.next e.prev)
  let h ← h.kmemFree node
  return (⟨head, tail⟩, h)

/-- `while (list->head)` -/
def listDestroyLoop : (fuel : Nat) → ListT → NodeHeap α → Except Trap (ListT × NodeHeap α)
  | 0, _, _ => .error .diverged
  | fuel + 1, list, h =>
      if list.head = 0 then .ok (list, h)
      else do
        let (list, h) ← listRemoveNode list list.head h
        listDestroyLoop fuel list h

/-- Each round frees an object. -/
def listDestroy (list : ListT) (h : NodeHeap α) : Except Trap (ListT × NodeHeap α) :=
  listDestroyLoop (h.live.length + 1) list h

/-- The nodes that `LIST_FOREACH` visits. -/
def ListT.nodes (list : ListT) (h : NodeHeap α) : List Nat :=
  Chain.walk h.next h.live.length list.head

/-- The nodes from the tail back. -/
def ListT.nodesBack (list : ListT) (h : NodeHeap α) : List Nat :=
  Chain.walk h.prev h.live.length list.tail

/-! ## Stores -/

namespace NodeHeap

variable {h : NodeHeap α} {p x : Nat} {f : ListNode α → ListNode α}

theorem load_eq (hp : p ∈ h.live) : h.load p = .ok (h.nodes p) := if_pos hp

theorem modify_eq (hp : p ∈ h.live) : h.modify p f = .ok (h.set p (f (h.nodes p))) := by
  rw [modify, load_eq hp]
  rfl

theorem kmemFree_eq (hp : p ∈ h.live) :
    h.kmemFree p = .ok { h with live := h.live.erase p, freed := h.freed ++ [p] } := if_pos hp

@[simp] theorem nodes_set_self (e : ListNode α) : (h.set p e).nodes p = e := by
  simp [set]

theorem nodes_set_of_ne (e : ListNode α) (hx : x ≠ p) : (h.set p e).nodes x = h.nodes x := by
  simp [set, hx]

@[simp] theorem set_set (e e' : ListNode α) : (h.set p e).set p e' = h.set p e' := by
  rw [set, set, set, Function.update_idem]

theorem next_set (e : ListNode α) : (h.set p e).next = Function.update h.next p e.next := by
  funext x
  by_cases hx : x = p
  · subst hx
    simp [next]
  · simp [next, nodes_set_of_ne e hx, hx]

theorem prev_set (e : ListNode α) : (h.set p e).prev = Function.update h.prev p e.prev := by
  funext x
  by_cases hx : x = p
  · subst hx
    simp [prev]
  · simp [prev, nodes_set_of_ne e hx, hx]

theorem payload_set (e : ListNode α) (he : e.payload = (h.nodes p).payload) (x : Nat) :
    ((h.set p e).nodes x).payload = (h.nodes x).payload := by
  by_cases hx : x = p
  · subst hx
    rw [nodes_set_self, he]
  · rw [nodes_set_of_ne e hx]

/-- The store behind a test for the null pointer. -/
def link (h : NodeHeap α) (p : Nat) (f : ListNode α → ListNode α) : NodeHeap α :=
  if p = 0 then h else h.set p (f (h.nodes p))

theorem link_eq (hp : p ≠ 0 → p ∈ h.live) :
    (if p = 0 then .ok h else h.modify p f) = .ok (h.link p f) := by
  rw [link]
  split
  · rfl
  · next hne => exact modify_eq (hp hne)

theorem nodes_link (hx : p ≠ 0 → x ≠ p) : (h.link p f).nodes x = h.nodes x := by
  rw [link]
  split
  · rfl
  · next hne => exact nodes_set_of_ne _ (hx hne)

theorem next_link (n : Nat) (hf : (f (h.nodes p)).next = n) :
    (h.link p f).next = if p = 0 then h.next else Function.update h.next p n := by
  rw [link]
  split
  · rfl
  · rw [next_set, hf]

theorem prev_link (n : Nat) (hf : (f (h.nodes p)).prev = n) :
    (h.link p f).prev = if p = 0 then h.prev else Function.update h.prev p n := by
  rw [link]
  split
  · rfl
  · rw [prev_set, hf]

theorem next_link_same (hf : (f (h.nodes p)).next = h.next p) : (h.link p f).next = h.next := by
  rw [next_link _ hf, Function.update_eq_self, ite_self]

theorem prev_link_same (hf : (f (h.nodes p)).prev = h.prev p) : (h.link p f).prev = h.prev := by
  rw [prev_link _ hf, Function.update_eq_self, ite_self]

theorem payload_link (hf : (f (h.nodes p)).payload = (h.nodes p).payload) (x : Nat) :
    ((h.link p f).nodes x).payload = (h.nodes x).payload := by
  rw [link]
  split
  · rfl
  · exact payload_set _ hf x

theorem live_link : (h.link p f).live = h.live := by
  rw [link]
  split <;> rfl

theorem freed_link : (h.link p f).freed = h.freed := by
  rw [link]
  split <;> rfl

/-- The neighbours of `p` get its links. -/
def unlink (h : NodeHeap α) (p : Nat) : NodeHeap α :=
  (h.link (h.prev p) fun b => { b with next := h.next p }).link (h.next p) fun b =>
    { b with prev := h.prev p }

theorem live_unlink (h : NodeHeap α) (p : Nat) : (h.unlink p).live = h.live := by
  rw [unlink, live_link, live_link]

theorem freed_unlink (h : NodeHeap α) (p : Nat) : (h.unlink p).freed = h.freed := by
  rw [unlink, freed_link, freed_link]

theorem payload_unlink (h : NodeHeap α) (p x : Nat) :
    ((h.unlink p).nodes x).payload = (h.nodes x).payload := by
  rw [unlink, payload_link rfl, payload_link rfl]

theorem next_unlink (h : NodeHeap α) (p : Nat) : (h.unlink p).next =
    if h.prev p = 0 then h.next else Function.update h.next (h.prev p) (h.next p) := by
  rw [unlink, next_link_same rfl, next_link _ rfl]

theorem prev_unlink (h : NodeHeap α) (p : Nat) : (h.unlink p).prev =
    if h.next p = 0 then h.prev else Function.update h.prev (h.next p) (h.prev p) := by
  rw [unlink, prev_link _ rfl, prev_link_same rfl]

theorem nodes_unlink (hprev : h.prev p ≠ 0 → x ≠ h.prev p) (hnext : h.next p ≠ 0 → x ≠ h.next p) :
    (h.unlink p).nodes x = h.nodes x := by
  rw [unlink, nodes_link hnext, nodes_link hprev]

end NodeHeap

/-- The fields of the node are the same when they are read again. -/
theorem listRemoveNode_eq (list : ListT) {h : NodeHeap α} {p : Nat} (hp : p ∈ h.live)
    (hprev : h.prev p ≠ 0 → h.prev p ∈ h.live) (hnext : h.next p ≠ 0 → h.next p ∈ h.live)
    (hne : h.prev p ≠ 0 → p ≠ h.prev p) :
    listRemoveNode list p h = .ok (⟨if list.head = p then h.next p else list.head,
      if list.tail = p then h.prev p else list.tail⟩,
      { h.unlink p with live := h.live.erase p, freed := h.freed ++ [p] }) := by
  generalize hh₁ : (h.link (h.prev p) fun b => { b with next := h.next p }) = h₁
  have hlive₁ : h₁.live = h.live := hh₁ ▸ NodeHeap.live_link
  have hnode : h₁.nodes p = h.nodes p := hh₁ ▸ NodeHeap.nodes_link hne
  have hfree := NodeHeap.kmemFree_eq (h.live_unlink p ▸ hp)
  rw [h.live_unlink, h.freed_unlink] at hfree
  refine Except.bind_eq_ok.mpr ⟨_, NodeHeap.load_eq hp, ?_⟩
  refine Except.bind_eq_ok.mpr ⟨h₁, (NodeHeap.link_eq hprev).trans (congrArg _ hh₁), ?_⟩
  refine Except.bind_eq_ok.mpr ⟨_, NodeHeap.load_eq (hlive₁ ▸ hp), ?_⟩
  rw [hnode]
  have hstore := NodeHeap.link_eq (h := h₁) (f := fun b => { b with prev := h.prev p })
    fun hne => hlive₁ ▸ hnext hne
  refine Except.bind_eq_ok.mpr ⟨h.unlink p, hstore.trans ?_, ?_⟩
  · rw [← hh₁]
    rfl
  · exact Except.bind_eq_ok.mpr ⟨_, hfree, rfl⟩

/-! ## Lists in memory -/

/-- The nodes of the list with their payloads. -/
structure ListT.Represents (list : ListT) (h : NodeHeap α) (l : List (Nat × α)) : Prop where
  chain : DoubleChain h.next h.prev list.head list.tail (l.map Prod.fst)
  payload : ∀ e ∈ l, (h.nodes e.1).payload = e.2
  live : ∀ e ∈ l, e.1 ∈ h.live

theorem listCreate_represents (h : NodeHeap α) : listCreate.Represents h [] where
  chain := .nil
  payload _ he := by cases he
  live _ he := by cases he

namespace ListT.Represents

variable {list : ListT} {h h' : NodeHeap α} {l : List (Nat × α)} {e : Nat × α} {node : Nat}

/-- A list does not notice what happens to other nodes. -/
theorem frame (hl : list.Represents h l) (same : ∀ e ∈ l, h'.nodes e.1 = h.nodes e.1)
    (live : ∀ e ∈ l, e.1 ∈ h'.live) : list.Represents h' l where
  chain := by
    refine hl.chain.congr (fun a ha => ?_) fun a ha => ?_ <;>
    · obtain ⟨e, he, rfl⟩ := List.mem_map.mp ha
      simp only [NodeHeap.next, NodeHeap.prev, same e he]
  payload e he := by
    rw [same e he]
    exact hl.payload e he
  live := live

theorem mem_live (hl : list.Represents h l) {p : Nat} (hp : p ∈ l.map Prod.fst) : p ∈ h.live := by
  obtain ⟨e, he, rfl⟩ := List.mem_map.mp hp
  exact hl.live e he

theorem unique (hl : list.Represents h l) : Keyed.Unique Prod.fst l := hl.chain.nodup

theorem length_le (hl : list.Represents h l) : (l.map Prod.fst).length ≤ h.live.length :=
  (hl.chain.nodup.subperm fun _ hp => hl.mem_live hp).length_le

/-- The fuel of the loops over the nodes suffices. -/
theorem length_lt (hl : list.Represents h l) : l.length < h.live.length + 1 := by
  have hle := hl.length_le
  rw [List.length_map] at hle
  exact Nat.lt_succ_of_le hle

/-- What a loop reads of a node. -/
theorem load_eq (hl : list.Represents h l) {e : Nat × α} (he : e ∈ l) :
    h.load e.1 = .ok (h.nodes e.1) ∧ (h.nodes e.1).payload = e.2 :=
  ⟨NodeHeap.load_eq (hl.live e he), hl.payload e he⟩

theorem nodes_eq (hl : list.Represents h l) : list.nodes h = l.map Prod.fst :=
  hl.chain.forward.walk_eq hl.length_le

theorem nodesBack_eq (hl : list.Represents h l) : list.nodesBack h = (l.map Prod.fst).reverse :=
  hl.chain.backward.walk_eq (by rw [List.length_reverse]; exact hl.length_le)

theorem map_payload (hl : list.Represents h l) :
    (l.map Prod.fst).map (fun p => (h.nodes p).payload) = l.map Prod.snd := by
  rw [List.map_map]
  exact List.map_congr_left hl.payload

/-- A new node, which may not be allocated before. -/
theorem append (hl : list.Represents h l) (hnode : node ≠ 0) (hnew : node ∉ h.live)
    (payload : α) :
    (listAppend list payload node h).Total fun r =>
      r.1.Represents r.2 (l ++ [(node, payload)]) ∧ r.2.live = node :: h.live ∧
        r.2.freed = h.freed ∧ ∀ x ∉ l.map Prod.fst, x ≠ node → r.2.nodes x = h.nodes x := by
  have hmem : node ∉ l.map Prod.fst := fun hp => hnew (hl.mem_live hp)
  have hnode' : node ∈ (h.kmemAlloc node).live := List.mem_cons_self
  have hlive : ∀ e ∈ l ++ [(node, payload)], e.1 ∈ (h.kmemAlloc node).live := by
    intro e he
    obtain he | he := List.mem_append.mp he
    · exact List.mem_cons_of_mem _ (hl.live e he)
    · rw [List.mem_singleton.mp he]
      exact hnode'
  by_cases htail : list.tail = 0
  · obtain rfl : l = [] := by
      rw [← List.map_eq_nil_iff (f := Prod.fst), ← List.reverse_eq_nil_iff]
      exact hl.chain.backward.eq_nil_iff.mpr htail
    refine ⟨(⟨node, node⟩, (h.kmemAlloc node).set node ⟨0, 0, payload⟩), ?_, ?_, rfl, rfl, ?_⟩
    · rw [listAppend, NodeHeap.setPayload, NodeHeap.modify_eq hnode']
      refine (if_pos htail).trans ?_
      refine Except.bind_eq_ok.mpr ⟨_, NodeHeap.modify_eq hnode', ?_⟩
      refine Except.bind_eq_ok.mpr ⟨_, NodeHeap.modify_eq hnode', ?_⟩
      simp
    · refine ⟨.single hnode ?_ ?_, ?_, hlive⟩
      · simp [NodeHeap.next]
      · simp [NodeHeap.prev]
      · exact List.forall_mem_singleton.mpr (by simp)
    · exact fun x _ hx => NodeHeap.nodes_set_of_ne _ hx
  · have htail' : list.tail ∈ h.live := hl.mem_live (hl.chain.tail_mem htail)
    have hne : list.tail ≠ node := fun heq => hnew (heq ▸ htail')
    have htail'' : list.tail ∈ (h.kmemAlloc node).live := List.mem_cons_of_mem _ htail'
    refine ⟨({ list with tail := node }, (((h.kmemAlloc node).set node
      ⟨list.tail, h.next node, payload⟩).set list.tail { h.nodes list.tail with next := node }).set
        node ⟨list.tail, 0, payload⟩), ?_, ⟨?_, fun e he => ?_, hlive⟩, rfl, rfl,
      fun x hx hxn => ?_⟩
    · rw [listAppend, NodeHeap.setPayload, NodeHeap.modify_eq hnode']
      refine (if_neg htail).trans ?_
      refine Except.bind_eq_ok.mpr ⟨_, NodeHeap.modify_eq hnode', ?_⟩
      refine Except.bind_eq_ok.mpr ⟨_, NodeHeap.modify_eq htail'', ?_⟩
      refine Except.bind_eq_ok.mpr ⟨_, NodeHeap.modify_eq hnode', ?_⟩
      simp [NodeHeap.nodes_set_of_ne _ hne, NodeHeap.nodes_set_of_ne _ hne.symm]
      rfl
    · have hnext : ∀ v, Function.update (Function.update (Function.update h.next node v)
          list.tail node) node 0 = Function.update (Function.update h.next list.tail node) node 0 :=
        fun v => by rw [Function.update_comm hne.symm, Function.update_idem]
      have hprev : Function.update (Function.update (Function.update h.prev node list.tail)
          list.tail (h.prev list.tail)) node list.tail = Function.update h.prev node list.tail := by
        rw [Function.update_comm hne.symm, Function.update_idem, Function.update_eq_self]
      rw [List.map_append, NodeHeap.next_set, NodeHeap.next_set, NodeHeap.next_set,
        NodeHeap.prev_set, NodeHeap.prev_set, NodeHeap.prev_set]
      have hchain := hl.chain.append htail hnode hmem
      rw [← hnext (h.next node), ← hprev] at hchain
      exact hchain
    · obtain he | he := List.mem_append.mp he
      · have hx : e.1 ≠ node := fun heq => hmem (heq ▸ List.mem_map_of_mem he)
        rw [NodeHeap.nodes_set_of_ne _ hx, NodeHeap.payload_set _ ?_,
          NodeHeap.nodes_set_of_ne _ hx]
        · exact hl.payload e he
        · rw [NodeHeap.nodes_set_of_ne _ hne]
          rfl
      · rw [List.mem_singleton.mp he]
        simp
    · have hxt : x ≠ list.tail := fun heq => hx (heq ▸ hl.chain.tail_mem htail)
      rw [NodeHeap.nodes_set_of_ne _ hxn, NodeHeap.nodes_set_of_ne _ hxt,
        NodeHeap.nodes_set_of_ne _ hxn]
      rfl

/-- Any node of the list. -/
theorem remove {l₁ l₂ : List (Nat × α)} (hl : list.Represents h (l₁ ++ e :: l₂)) :
    (listRemoveNode list e.1 h).Total fun r =>
      r.1.Represents r.2 (l₁ ++ l₂) ∧ r.2.live = h.live.erase e.1 ∧
        r.2.freed = h.freed ++ [e.1] ∧
        ∀ x ∉ (l₁ ++ e :: l₂).map Prod.fst, r.2.nodes x = h.nodes x := by
  have hchain := hl.chain
  rw [List.map_append, List.map_cons] at hchain
  have hnodup := List.nodup_middle.mp hchain.nodup
  have hmem : e.1 ∈ h.live := hl.live e (List.mem_append_right _ List.mem_cons_self)
  have hnot : e.1 ∉ (l₁ ++ l₂).map Prod.fst := by
    rw [List.map_append]
    exact (List.nodup_cons.mp hnodup).1
  have hrest : ∀ a ∈ l₁ ++ l₂, a ∈ l₁ ++ e :: l₂ := fun a ha =>
    List.mem_append.mpr ((List.mem_append.mp ha).imp_right (List.mem_cons_of_mem e))
  have hneighbour : ∀ x ∈ (l₁ ++ l₂).map Prod.fst, x ∈ (l₁ ++ e :: l₂).map Prod.fst :=
    List.map_subset _ hrest
  have hprev : h.prev e.1 ≠ 0 → h.prev e.1 ∈ (l₁ ++ l₂).map Prod.fst := fun hne => by
    rw [List.map_append]
    exact List.mem_append_left _ (hchain.prev_mem hne)
  have hnext : h.next e.1 ≠ 0 → h.next e.1 ∈ (l₁ ++ l₂).map Prod.fst := fun hne => by
    rw [List.map_append]
    exact List.mem_append_right _ (hchain.next_mem hne)
  have hrun := listRemoveNode_eq list hmem (fun hne => hl.mem_live (hneighbour _ (hprev hne)))
    (fun hne => hl.mem_live (hneighbour _ (hnext hne))) fun hne heq => hnot (heq ▸ hprev hne)
  refine ⟨_, hrun, ⟨?_, fun a ha => ?_, fun a ha => ?_⟩, rfl, rfl, fun x hx => ?_⟩
  · have hremoved := hchain.remove
    rw [← h.next_unlink, ← h.prev_unlink, ← List.map_append] at hremoved
    exact hremoved
  · exact (h.payload_unlink e.1 a.1).trans (hl.payload a (hrest a ha))
  · refine (List.mem_erase_of_ne ?_).mpr (hl.live a (hrest a ha))
    exact fun heq => hnot (heq ▸ List.mem_map_of_mem ha)
  · refine NodeHeap.nodes_unlink (fun hne heq => ?_) fun hne heq => ?_
    · exact hx (heq ▸ hneighbour _ (hprev hne))
    · exact hx (heq ▸ hneighbour _ (hnext hne))

/-- The loop frees the nodes from the first one on. -/
theorem destroyLoop (hl : list.Represents h l) {fuel : Nat} (hfuel : l.length < fuel) :
    (listDestroyLoop fuel list h).Total fun r =>
      r.1 = ⟨0, 0⟩ ∧ r.2.freed = h.freed ++ l.map Prod.fst ∧
        h.live.Perm (l.map Prod.fst ++ r.2.live) ∧
        ∀ x ∉ l.map Prod.fst, r.2.nodes x = h.nodes x := by
  induction l generalizing list h fuel with
  | nil =>
      obtain ⟨fuel, rfl⟩ := Nat.exists_eq_add_one_of_ne_zero hfuel.ne'
      have hhead : list.head = 0 := hl.chain.head_eq
      have htail : list.tail = 0 := hl.chain.tail_eq
      rw [listDestroyLoop, if_pos hhead]
      refine .ok ⟨?_, (List.append_nil _).symm, .refl _, fun _ _ => rfl⟩
      rw [← hhead]
      exact congrArg (ListT.mk list.head) (htail.trans hhead.symm)
  | cons e l ih =>
      obtain ⟨fuel, rfl⟩ := Nat.exists_eq_add_one_of_ne_zero (Nat.ne_zero_of_lt hfuel)
      have hhead : list.head = e.1 := hl.chain.head_eq
      have hne : list.head ≠ 0 := hhead ▸ hl.chain.ne_zero List.mem_cons_self
      rw [listDestroyLoop, if_neg hne, hhead]
      have hfirst : list.Represents h ([] ++ e :: l) := hl
      refine .bind hfirst.remove ?_
      rintro ⟨list', h'⟩ ⟨hl', hlive, hfreed, hframe⟩
      refine (ih hl' (Nat.lt_of_succ_lt_succ hfuel)).mono ?_
      rintro r ⟨hnull, hfreed', hlive', hframe'⟩
      refine ⟨hnull, ?_, ?_, fun x hx => ?_⟩
      · rw [hfreed', hfreed, List.append_assoc]
        rfl
      · refine (List.perm_cons_erase (hl.live e List.mem_cons_self)).trans ?_
        rw [← hlive]
        exact hlive'.cons e.1
      · rw [hframe' x fun hmem => hx (List.mem_cons_of_mem e.1 hmem)]
        exact hframe x hx

theorem destroy (hl : list.Represents h l) :
    (listDestroy list h).Total fun r =>
      r.1 = ⟨0, 0⟩ ∧ r.2.freed = h.freed ++ l.map Prod.fst ∧
        h.live.Perm (l.map Prod.fst ++ r.2.live) ∧
        ∀ x ∉ l.map Prod.fst, r.2.nodes x = h.nodes x :=
  hl.destroyLoop hl.length_lt

end ListT.Represents

/-! ## Histories -/

inductive ListOp (α : Type) where
  /-- `kmem_alloc` returns `node`. -/
  | append (payload : α) (node : Nat)
  | remove (node : Nat)

def listStep (s : ListT × NodeHeap α) : ListOp α → Except Trap (ListT × NodeHeap α)
  | .append payload node => listAppend s.1 payload node s.2
  | .remove node => listRemoveNode s.1 node s.2

/-- `kmem_alloc` returns an address that is not in use, and only nodes of the list are
removed. -/
def ListOp.Valid (s : ListT × NodeHeap α) : ListOp α → Prop
  | .append _ node => node ≠ 0 ∧ node ∉ s.2.live
  | .remove node => node ∈ s.1.nodes s.2

instance (s : ListT × NodeHeap α) (op : ListOp α) : Decidable (op.Valid s) := by
  cases op with
  | append payload node => exact inferInstanceAs (Decidable (_ ∧ _))
  | remove node => exact inferInstanceAs (Decidable (node ∈ s.1.nodes s.2))

/-- The nodes with their payloads, as they are meant. -/
def ListOp.apply (l : List (Nat × α)) : ListOp α → List (Nat × α)
  | .append payload node => l ++ [(node, payload)]
  | .remove node => Keyed.erase Prod.fst node l

/-- Both ends are null, or they are the ends of the list; the links of the two directions are
inverse to each other and end there, and no node comes twice. -/
structure ListT.WellFormed (list : ListT) (h : NodeHeap α) (nodes : List Nat) : Prop where
  ends : nodes = [] ∧ list.head = 0 ∧ list.tail = 0 ∨
    nodes.head? = some list.head ∧ nodes.getLast? = some list.tail ∧
      h.prev list.head = 0 ∧ h.next list.tail = 0
  inverse : ∀ a ∈ nodes, ∀ b ∈ nodes, h.next a = b ↔ h.prev b = a
  acyclic : nodes.Nodup

section

variable {list : ListT} {h : NodeHeap α} {l : List (Nat × α)}

theorem ListT.Represents.wellFormed (hl : list.Represents h l) :
    list.WellFormed h (l.map Prod.fst) where
  ends := by
    by_cases hnil : l.map Prod.fst = []
    · have hchain := hl.chain
      rw [hnil] at hchain
      exact .inl ⟨hnil, hchain.head_eq, hchain.tail_eq⟩
    · obtain ⟨hhead, hprev⟩ := hl.chain.first hnil
      obtain ⟨htail, hnext⟩ := hl.chain.last hnil
      exact .inr ⟨hhead, htail, hprev, hnext⟩
  inverse _ ha _ hb := hl.chain.next_eq_iff ha hb
  acyclic := hl.chain.nodup

/-- A node that is removed is in the list that is meant. -/
theorem ListT.Represents.valid_total (hl : list.Represents h l) {op : ListOp α}
    (valid : op.Valid (list, h)) :
    (listStep (list, h) op).Total fun s => s.1.Represents s.2 (op.apply l) := by
  cases op with
  | append payload node =>
      exact (hl.append valid.1 valid.2 payload).mono fun s hs => hs.1
  | remove node =>
      change node ∈ list.nodes h at valid
      rw [hl.nodes_eq] at valid
      obtain ⟨e, he, rfl⟩ := List.mem_map.mp valid
      obtain ⟨l₁, l₂, rfl⟩ := List.mem_iff_append.mp he
      have hnot : e.1 ∉ l₁.map Prod.fst := by
        have hnodup := hl.chain.nodup
        rw [List.map_append, List.map_cons] at hnodup
        exact fun hmem => (List.nodup_append.mp hnodup).2.2 _ hmem e.1 List.mem_cons_self rfl
      refine hl.remove.mono fun s hs => ?_
      rw [ListOp.apply, Keyed.erase_append_cons hnot]
      exact hs.1

theorem run_representsList {ops : List (ListOp α)} {s : ListT × NodeHeap α}
    (run : Transition.Run listStep ListOp.Valid (listCreate, h) ops s) :
    s.1.Represents s.2 (ops.foldl ListOp.apply []) := by
  refine run.simulates (R := fun s l => s.1.Represents s.2 l) ?_ (listCreate_represents h)
  rintro ⟨list, h⟩ l op s' hl valid hstep
  exact (hl.valid_total valid).post _ hstep

/-- After every sequence of calls on an empty list that only removes nodes of the list, the
list is well formed, it holds the payloads that were appended and not removed, in this order
and backwards, and every further call returns. Destroying it frees each of its nodes once and
leaves null pointers. -/
theorem list_integrity (h : NodeHeap α) (ops : List (ListOp α)) (list : ListT) (h' : NodeHeap α)
    (run : Transition.Run listStep ListOp.Valid (listCreate, h) ops (list, h')) :
    list.WellFormed h' (list.nodes h') ∧
      list.nodes h' = (ops.foldl ListOp.apply []).map Prod.fst ∧
      (list.nodes h').map (fun p => (h'.nodes p).payload) =
        (ops.foldl ListOp.apply []).map Prod.snd ∧
      (list.nodesBack h').map (fun p => (h'.nodes p).payload) =
        ((ops.foldl ListOp.apply []).map Prod.snd).reverse ∧
      (∀ op, ListOp.Valid (list, h') op → ∃ s, listStep (list, h') op = .ok s) ∧
      ∃ h'', listDestroy list h' = .ok (⟨0, 0⟩, h'') ∧ h''.freed = h'.freed ++ list.nodes h' := by
  have hl := run_representsList run
  obtain ⟨⟨list', h''⟩, hdestroy, hnull, hfreed, _⟩ := hl.destroy
  rw [hl.nodes_eq, hl.nodesBack_eq, List.map_reverse, hl.map_payload]
  refine ⟨hl.wellFormed, rfl, rfl, rfl, fun op valid => ?_, h'', ?_, hfreed⟩
  · obtain ⟨s, hs, _⟩ := hl.valid_total valid
    exact ⟨s, hs⟩
  · rw [hdestroy]
    exact congrArg (fun l => Except.ok (l, h'')) hnull

end

theorem list_integrity_run : ∃ s : ListT × NodeHeap Nat,
    Transition.Run listStep ListOp.Valid (listCreate, ⟨fun _ => ⟨0, 0, 0⟩, [], []⟩)
      [.append 7 1, .append 8 2, .append 9 3, .remove 2, .append 5 2] s ∧
      (s.1.nodes s.2).map (fun p => (s.2.nodes p).payload) = [7, 9, 5] := by
  have hrun : Transition.check listStep ListOp.Valid (fun _ => true)
      (listCreate, (⟨fun _ => ⟨0, 0, 0⟩, [], []⟩ : NodeHeap Nat))
      [.append 7 1, .append 8 2, .append 9 3, .remove 2, .append 5 2] = true := by decide
  obtain ⟨s, run, _⟩ := Transition.Run.of_check hrun
  exact ⟨s, run, (list_integrity _ _ s.1 s.2 run).2.2.1⟩

end BadOs
