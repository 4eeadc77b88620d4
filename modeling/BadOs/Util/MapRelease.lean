import BadOs.Util.MapMemory

/-!
# What a map gives back

`map_destroy` frees the entries and the nodes of all buckets. Nothing frees the array of the
buckets, and `map_remove` frees the node of an entry but not the entry itself.
-/

namespace BadOs

variable {V : Type}

namespace MapMemory

/-- `kmem_free` of an entry. -/
def freeEntry (m : MapMemory V) (p : Nat) : Except Trap (MapMemory V) :=
  if p ∈ m.items then .ok { m with items := m.items.erase p } else .error .useAfterFree

/-- The loop over a bucket in `map_destroy`. The link is read after the entry was freed. -/
def freeLoop : (fuel node : Nat) → MapMemory V → Except Trap (MapMemory V)
  | 0, _, _ => .error .diverged
  | fuel + 1, node, m =>
      if node = 0 then .ok m
      else do
        let n ← m.heap.load node
        let m ← m.freeEntry n.payload
        let n ← m.heap.load node
        freeLoop fuel n.next m

/-- The loop of `map_destroy` with `left` buckets to go. -/
def destroyLoop : (left i : Nat) → MapMemory V → Except Trap (MapMemory V)
  | 0, _, m => .ok m
  | left + 1, i, m =>
      match m.data with
      | none => .error .nullPointer
      | some data => do
          let m ← freeLoop (m.heap.live.length + 1) (data i).head m
          let (list, heap) ← listDestroy (data i) m.heap
          destroyLoop left (i + 1)
            { m with data := some (Function.update data i list), heap := heap }

/-- `map_destroy`. -/
def destroy (m : MapMemory V) : Except Trap (MapMemory V) := destroyLoop m.nBuckets.toNat 0 m

variable {m : MapMemory V} {lists : Nat → ListT} {nodes : Nat → List (Nat × Nat)}
  {live items : List Nat} {key : BitVec 32} {i : Nat}

/-! ## Destruction -/

/-- The loop frees the entries of the nodes that it visits. -/
theorem freeLoop_total {list : ListT} {l : List (Nat × Nat)} (hl : list.Represents m.heap l)
    {l' : List (Nat × Nat)} (hsub : l' ⊆ l) {p fuel : Nat}
    (hchain : Chain m.heap.next p (l'.map Prod.fst)) (hfuel : l'.length < fuel)
    (hitems : m.items.Perm (l'.map Prod.snd ++ items)) :
    (freeLoop fuel p m).Total fun m' => ∃ items', m' = { m with items := items' } ∧
      items'.Perm items := by
  induction l' generalizing m p fuel with
  | nil =>
      obtain ⟨fuel, rfl⟩ := Nat.exists_eq_add_one_of_ne_zero hfuel.ne'
      exact ⟨m, if_pos hchain, m.items, rfl, hitems⟩
  | cons e l' ih =>
      obtain ⟨fuel, rfl⟩ := Nat.exists_eq_add_one_of_ne_zero (Nat.ne_zero_of_lt hfuel)
      obtain ⟨rfl, hne, hrest⟩ := hchain
      have he : e ∈ l := hsub List.mem_cons_self
      obtain ⟨hload, hpayload⟩ := hl.load_eq he
      have hitem : e.2 ∈ m.items := hitems.mem_iff.mpr List.mem_cons_self
      rw [freeLoop, if_neg hne]
      refine .bind ⟨_, hload, rfl⟩ ?_
      rintro _ rfl
      rw [hpayload]
      refine .bind ⟨_, if_pos hitem, rfl⟩ ?_
      rintro _ rfl
      refine .bind ⟨_, hload, rfl⟩ ?_
      rintro _ rfl
      have herase : (m.items.erase e.2).Perm (l'.map Prod.snd ++ items) := by
        have hperm := hitems.erase e.2
        rwa [List.map_cons, List.cons_append, List.erase_cons_head] at hperm
      exact ih (m := { m with items := m.items.erase e.2 }) hl
        (fun a ha => hsub (List.mem_cons_of_mem e ha)) hrest (Nat.lt_of_succ_lt_succ hfuel) herase

/-- Objects that are not among the first are among the others. -/
theorem mem_of_perm_append {l l₁ l₂ : List Nat} {a : Nat} (h : l.Perm (l₁ ++ l₂)) (ha : a ∈ l)
    (hnot : a ∉ l₁) : a ∈ l₂ :=
  (List.mem_append.mp (h.mem_iff.mp ha)).resolve_left hnot

theorem destroyLoop_total (left : Nat) (layout : m.Layout lists nodes)
    (hlive : m.heap.live.Perm (((List.range' i left).flatMap nodes).map Prod.fst ++ live))
    (hitems : m.items.Perm (((List.range' i left).flatMap nodes).map Prod.snd ++ items)) :
    (destroyLoop left i m).Total fun m' => m'.heap.live.Perm live ∧ m'.items.Perm items := by
  induction left generalizing m lists nodes i with
  | zero => exact .ok ⟨hlive, hitems⟩
  | succ left ih =>
      rw [List.range'_succ, List.flatMap_cons, List.map_append, List.append_assoc] at hlive hitems
      have hl := layout.list i
      rw [destroyLoop, layout.data]
      refine .bind (freeLoop_total hl (List.Subset.refl _) hl.chain.forward hl.length_lt hitems) ?_
      rintro _ ⟨items', rfl, hitems'⟩
      refine .bind hl.destroy ?_
      rintro ⟨list, heap⟩ ⟨rfl, _, hfreed, hframe⟩
      -- The bucket is empty now, and the later ones are as they were.
      have hlater : (List.range' (i + 1) left).flatMap (Function.update nodes i []) =
          (List.range' (i + 1) left).flatMap nodes := by
        refine List.flatMap_congr fun j hj => Function.update_of_ne ?_ _ _
        have hle := (List.mem_range'_1.mp hj).1
        omega
      have hempty := listCreate_represents heap
      refine ih (layout.update rfl hempty ?_ ?_ ?_ ?_) ?_ ?_
      · intro j hj e he
        have hnode : e.1 ∉ (nodes i).map Prod.fst := by
          intro hmem
          obtain ⟨e', he', heq⟩ := List.mem_map.mp hmem
          exact hj (layout.separate j i e he e' he' (.inl heq.symm)).1
        have hitem : e.2 ∉ (nodes i).map Prod.snd := by
          intro hmem
          obtain ⟨e', he', heq⟩ := List.mem_map.mp hmem
          exact hj (layout.separate j i e he e' he' (.inr heq.symm)).1
        refine ⟨hframe e.1 hnode, ?_, ?_⟩
        · exact mem_of_perm_append hfreed ((layout.list j).live e he) hnode
        · exact hitems'.mem_iff.mpr
            (mem_of_perm_append hitems (layout.items j e he) hitem)
      · intro e he
        cases he
      · intro e he
        cases he
      · intro j _ e _ e' he'
        cases he'
      · rw [hlater]
        exact (List.perm_append_left_iff _).mp (hfreed.symm.trans hlive)
      · rw [hlater]
        exact hitems'

/-! ## The objects of a map -/

/-- A list of objects in which those of one bucket change. -/
theorem perm_flatMap_update {α : Type*} {l : List Nat} (hnodup : l.Nodup) (hi : i ∈ l)
    {f : Nat → List α} {bucket : List α} {a : α} (h : bucket.Perm (a :: f i)) :
    (l.flatMap (Function.update f i bucket)).Perm (a :: l.flatMap f) := by
  induction l with
  | nil => cases hi
  | cons j l ih =>
      obtain ⟨hj, hl⟩ := List.nodup_cons.mp hnodup
      rw [List.flatMap_cons, List.flatMap_cons]
      by_cases heq : j = i
      · subst heq
        have hrest : l.flatMap (Function.update f j bucket) = l.flatMap f := by
          refine List.flatMap_congr fun k hk => Function.update_of_ne ?_ _ _
          rintro rfl
          exact hj hk
        rw [hrest, Function.update_self]
        exact h.append_right _
      · rw [Function.update_of_ne heq]
        have hmem : i ∈ l := (List.mem_cons.mp hi).resolve_left (Ne.symm heq)
        exact ((ih hl hmem).append_left _).trans List.perm_middle

/-- Besides the nodes and the entries of the buckets, `live` and `items` are allocated. -/
structure Owns (m : MapMemory V) (lists : Nat → ListT) (nodes : Nat → List (Nat × Nat))
    (live items : List Nat) : Prop where
  layout : m.Layout lists nodes
  live : m.heap.live.Perm (((List.range 191).flatMap nodes).map Prod.fst ++ live)
  items : m.items.Perm (((List.range 191).flatMap nodes).map Prod.snd ++ items)

namespace Owns

theorem init (hash : BitVec 32 → BitVec 32) (heap : NodeHeap Nat)
    (entries : Nat → BucketEntry V) (items : List Nat) :
    (MapMemory.init hash heap entries items).Owns (fun _ => listCreate) (fun _ => []) heap.live
      items where
  layout := by
    refine ⟨rfl, fun _ => listCreate_represents heap, ?_, ?_⟩
    · intro i e he
      cases he
    · intro i j e he
      cases he
  live := .refl _
  items := .refl _

theorem add (h : m.Owns lists nodes live items) (hbucket : m.bucket key = .ok (lists, i))
    (hi : i < 191) (value : V) {item node : Nat} (hitem : item ∉ m.items) (hnode : node ≠ 0)
    (hnew : node ∉ m.heap.live) :
    (m.add key value item node).Total fun m' => ∃ lists nodes, m'.Owns lists nodes live items := by
  refine (h.layout.add hbucket value hitem hnode hnew).mono ?_
  rintro m' ⟨bucket, ⟨⟨list, layout⟩, _, _, _⟩, _, hobjects⟩
  obtain ⟨rfl, hlive, hitems⟩ | ⟨rfl, hlive, hitems⟩ := hobjects
  · rw [Function.update_eq_self] at layout
    refine ⟨_, _, layout, ?_, ?_⟩
    · rw [hlive]
      exact h.live
    · rw [hitems]
      exact h.items
  · have hperm := perm_flatMap_update List.nodup_range (List.mem_range.mpr hi)
      (List.perm_append_singleton (node, item) (nodes i))
    refine ⟨_, _, layout, ?_, ?_⟩
    · rw [hlive]
      exact (h.live.cons node).trans ((hperm.map Prod.fst).append_right live).symm
    · rw [hitems]
      exact (h.items.cons item).trans ((hperm.map Prod.snd).append_right items).symm

/-- The entry that leaves its bucket stays allocated. -/
theorem remove (h : m.Owns lists nodes live items) (hbucket : m.bucket key = .ok (lists, i))
    (hi : i < 191) :
    (m.remove key).Total fun m' => ∃ lists' nodes',
      ((∀ e ∈ (nodes i).map m.entry, e.1 ≠ key) ∧ m'.Owns lists' nodes' live items) ∨
        ∃ e ∈ nodes i, (m.entry e).1 = key ∧ m'.Owns lists' nodes' live (e.2 :: items) := by
  refine (h.layout.remove hbucket).mono ?_
  rintro m' ⟨bucket, ⟨⟨list, layout⟩, _, _, _⟩, _, hitems, hobjects⟩
  refine ⟨Function.update lists i list, Function.update nodes i bucket, ?_⟩
  obtain ⟨rfl, hlive, hnot⟩ | ⟨l₁, e, l₂, hsplit, rfl, hkey, hlive⟩ := hobjects
  · refine .inl ⟨hnot, layout, ?_, ?_⟩
    · rw [Function.update_eq_self, hlive]
      exact h.live
    · rw [Function.update_eq_self, hitems]
      exact h.items
  · have he : e ∈ nodes i := hsplit ▸ List.mem_append_right l₁ List.mem_cons_self
    have hback : Function.update (Function.update nodes i (l₁ ++ l₂)) i (nodes i) = nodes := by
      rw [Function.update_idem, Function.update_eq_self]
    have hbucket : (nodes i).Perm (e :: Function.update nodes i (l₁ ++ l₂) i) := by
      rw [Function.update_self, hsplit]
      exact List.perm_middle
    have hperm := perm_flatMap_update List.nodup_range (List.mem_range.mpr hi) hbucket
    rw [hback] at hperm
    refine .inr ⟨e, he, hkey, layout, ?_, ?_⟩
    · have hnodes := (h.live.trans ((hperm.map Prod.fst).append_right live)).erase e.1
      rw [List.map_cons, List.cons_append, List.erase_cons_head] at hnodes
      rw [hlive]
      exact hnodes
    · have hentries := h.items.trans ((hperm.map Prod.snd).append_right items)
      rw [hitems]
      exact hentries.trans List.perm_middle.symm

theorem destroy (h : m.Owns lists nodes live items) (hn : m.nBuckets = 191) :
    m.destroy.Total fun m' => m'.heap.live.Perm live ∧ m'.items.Perm items := by
  have hrange : List.range' 0 191 = List.range 191 := List.range_eq_range'.symm
  rw [MapMemory.destroy, hn]
  refine destroyLoop_total 191 h.layout ?_ ?_
  · rw [hrange]
    exact h.live
  · rw [hrange]
    exact h.items

end Owns

end MapMemory

/-! ## The life of a map -/

/-- The memory of a map, and the arrays of buckets that are allocated. -/
structure MapStore (V : Type) where
  memory : MapMemory V
  arrays : List Nat

namespace MapStore

/-- `map_init`; `array` is what `kmem_alloc` returns. -/
def init (hash : BitVec 32 → BitVec 32) (array : Nat) (s : MapStore V) : MapStore V where
  memory := .init hash s.memory.heap s.memory.entries s.memory.items
  arrays := array :: s.arrays

def step (s : MapStore V) (c : MapCall V) : Except Trap (MapStore V) := do
  let m ← mapCallStep s.memory c
  return { s with memory := m }

/-- `map_destroy` keeps `map->data`. -/
def destroy (s : MapStore V) : Except Trap (MapStore V) := do
  let m ← s.memory.destroy
  return { s with memory := m }

/-- `kmem_current_objects`. -/
def currentObjects (s : MapStore V) : Nat :=
  s.memory.heap.live.length + s.memory.items.length + s.arrays.length

/-- The same objects are allocated. -/
structure SameObjects (s s' : MapStore V) : Prop where
  nodes : s'.memory.heap.live.Perm s.memory.heap.live
  entries : s'.memory.items.Perm s.memory.items
  arrays : s'.arrays.Perm s.arrays

end MapStore

/-- The number of entries that a call removes from the partial function. -/
def MapOp.removed (f : BitVec 32 → Option V) : MapOp V → Nat
  | .add _ _ => 0
  | .remove key => if (f key).isSome then 1 else 0

/-- A call on the partial function and the number of removed entries. -/
def MapOp.count (a : (BitVec 32 → Option V) × Nat) (op : MapOp V) :
    (BitVec 32 → Option V) × Nat := (op.apply a.1, a.2 + op.removed a.1)

/-- How many calls of `map_remove` find their key. -/
def removals (calls : List (MapCall V)) : Nat :=
  (calls.foldl (fun a c => c.op.count a) (fun _ => none, 0)).2

section

variable {hash : BitVec 32 → BitVec 32} {s s' : MapStore V} {live items arrays : List Nat}
  {a : (BitVec 32 → Option V) × Nat}

/-- The map stands for a partial function, and besides its objects and the removed entries
the objects `live`, `items` and `arrays` are allocated. -/
structure MapStore.Accounts (hash : BitVec 32 → BitVec 32) (live items arrays : List Nat)
    (s : MapStore V) (a : (BitVec 32 → Option V) × Nat) : Prop where
  refines : s.memory.Refines hash a.1
  owns : ∃ lists nodes lost, lost.length = a.2 ∧
    s.memory.Owns lists nodes live (lost ++ items)
  arrays_eq : s.arrays = arrays

theorem MapStore.Accounts.step (h : s.Accounts hash live items arrays a) {c : MapCall V}
    (valid : c.Valid s.memory) :
    (s.step c).Total fun s' => s'.Accounts hash live items arrays (c.op.count a) := by
  obtain ⟨map, hmap, hashed, hf⟩ := h.refines.map
  obtain ⟨lists, nodes, lost, hlost, owns⟩ := h.owns
  have hbucket := fun key => hmap.bucket_eq hashed.ready owns.layout.data key
  have hlt : ∀ key, (hash key % 191).toNat < 191 := by
    intro key
    rw [BitVec.toNat_umod]
    exact Nat.mod_lt _ (by decide)
  have htotal : (mapCallStep s.memory c).Total fun m' => ∃ lists nodes lost,
      lost.length = (c.op.count a).2 ∧ m'.Owns lists nodes live (lost ++ items) := by
    cases c with
    | add key value item node =>
        refine (owns.add (hbucket key) (hlt key) value valid.1 valid.2.1 valid.2.2).mono ?_
        rintro m' ⟨lists', nodes', owns'⟩
        exact ⟨lists', nodes', lost, hlost, owns'⟩
    | remove key =>
        have hfind := (owns.layout.lookup (hbucket key)).symm.trans
          ((hmap.lookup hashed.ready key).trans (hf key))
        refine (owns.remove (hbucket key) (hlt key)).mono ?_
        rintro m' ⟨lists', nodes', ⟨hnot, owns'⟩ | ⟨e, he, hkey, owns'⟩⟩
        · have hnone : a.1 key = none := by
            rw [List.find?_eq_none.mpr fun e he => by simpa using hnot e he] at hfind
            exact (Except.ok.inj hfind).symm
          refine ⟨lists', nodes', lost, ?_, owns'⟩
          change lost.length = a.2 + if (a.1 key).isSome then 1 else 0
          rw [hnone]
          exact hlost
        · have hsome : (a.1 key).isSome := by
            rw [← Except.ok.inj hfind, Option.isSome_map, List.find?_isSome]
            exact ⟨_, List.mem_map_of_mem he, beq_iff_eq.mpr hkey⟩
          refine ⟨lists', nodes', e.2 :: lost, ?_, owns'⟩
          change lost.length + 1 = a.2 + if (a.1 key).isSome then 1 else 0
          rw [if_pos hsome, hlost]
  obtain ⟨m', hm', howns⟩ := htotal
  refine ⟨_, Except.bind_eq_ok.mpr ⟨m', hm', rfl⟩, ?_, howns, h.arrays_eq⟩
  exact (h.refines.step valid).post m' hm'

theorem MapStore.init_accounts (hash : BitVec 32 → BitVec 32) (array : Nat) (s : MapStore V) :
    (s.init hash array).Accounts hash s.memory.heap.live s.memory.items (array :: s.arrays)
      (fun _ => none, 0) where
  refines := by
    refine ⟨mapInit hash, MapMemory.init_represents hash _ _ _, .init hash, ?_⟩
    exact fun key => (MapT.Hashed.init hash).lookup_eq rfl key
  owns := ⟨_, _, [], rfl, .init hash _ _ _⟩
  arrays_eq := rfl

/-- What is not freed at the end. -/
theorem MapStore.Accounts.destroy (h : s.Accounts hash live items arrays a) :
    s.destroy.Total fun s' => s'.memory.heap.live.Perm live ∧
      (∃ lost, lost.length = a.2 ∧ s'.memory.items.Perm (lost ++ items)) ∧ s'.arrays = arrays := by
  obtain ⟨map, hmap, hashed, _⟩ := h.refines.map
  obtain ⟨lists, nodes, lost, hlost, owns⟩ := h.owns
  refine .bind (owns.destroy (hmap.nBuckets.trans hashed.ready.nBuckets_eq)) ?_
  rintro m' ⟨hlive, hitems⟩
  exact .ok ⟨hlive, ⟨lost, hlost, hitems⟩, h.arrays_eq⟩

end

/-- A map to which nothing is added. -/
theorem map_release_empty : ¬∀ (hash : BitVec 32 → BitVec 32) (s s' : MapStore Nat) (array : Nat)
    (calls : List (MapCall Nat)),
    Transition.Run MapStore.step (fun s c => c.Valid s.memory) (s.init hash array) calls s' →
      ∃ s'', s'.destroy = .ok s'' ∧ s.SameObjects s'' := by
  intro claim
  let s : MapStore Nat := ⟨.init mapIntHash ⟨fun _ => ⟨0, 0, 0⟩, [], []⟩ (fun _ => ⟨0, 0⟩) [], []⟩
  obtain ⟨s'', hdestroy, same⟩ := claim mapIntHash s (s.init mapIntHash 1) 1 [] (.nil _)
  have harrays := ((s.init_accounts mapIntHash 1).destroy.post s'' hdestroy).2.2
  have hempty := same.arrays
  rw [harrays] at hempty
  exact absurd hempty.length_eq (by decide)

/-- After every sequence of calls on a new map every further call returns, and destroying the map
frees all nodes that the calls have allocated, and all entries but those that `map_remove` took
out of their bucket. These and the array of the buckets stay allocated. -/
theorem map_release_never (hash : BitVec 32 → BitVec 32) (s s' : MapStore V) (array : Nat)
    (calls : List (MapCall V))
    (run : Transition.Run MapStore.step (fun s c => c.Valid s.memory) (s.init hash array) calls
      s') :
    (∀ c : MapCall V, c.Valid s'.memory → ∃ t, s'.step c = .ok t) ∧
    ∃ s'', s'.destroy = .ok s'' ∧ ¬s.SameObjects s'' ∧
      s''.memory.heap.live.Perm s.memory.heap.live ∧
      (∃ lost, lost.length = removals calls ∧
        s''.memory.items.Perm (lost ++ s.memory.items)) ∧
      s''.arrays = array :: s.arrays ∧
      s''.currentObjects = s.currentObjects + 1 + removals calls := by
  have accounts := run.simulates (R := MapStore.Accounts hash s.memory.heap.live s.memory.items
    (array :: s.arrays)) (fun s a c s' h valid hstep => (h.step valid).post s' hstep)
    (s.init_accounts hash array)
  refine ⟨fun c valid => ?_, ?_⟩
  · obtain ⟨t, ht, _⟩ := accounts.step valid
    exact ⟨t, ht⟩
  · obtain ⟨s'', hdestroy, hlive, ⟨lost, hlost, hitems⟩, harrays⟩ := accounts.destroy
    refine ⟨s'', hdestroy, fun same => ?_, hlive, ⟨lost, hlost, hitems⟩, harrays, ?_⟩
    · have hlength := same.arrays.length_eq
      rw [harrays] at hlength
      exact absurd hlength (Nat.succ_ne_self _)
    · have hremovals : lost.length = removals calls := hlost
      rw [MapStore.currentObjects, MapStore.currentObjects, hlive.length_eq, hitems.length_eq,
        harrays, List.length_append, List.length_cons, hremovals]
      omega

/-- One entry is removed, and another one is overwritten. -/
theorem map_release_run : ∃ s' s'' : MapStore Nat,
    Transition.Run MapStore.step (fun s c => c.Valid s.memory)
      (MapStore.init mapIntHash 1
        ⟨.init mapIntHash ⟨fun _ => ⟨0, 0, 0⟩, [], []⟩ (fun _ => ⟨0, 0⟩) [], []⟩)
      [.add 5 50 2 3, .add 196 70 4 6, .add 5 51 7 8, .remove 5, .remove 9] s' ∧
    s'.destroy = .ok s'' ∧ s''.memory.heap.live = [] ∧ s''.currentObjects = 2 := by
  have hrun : Transition.check MapStore.step (fun s c => c.Valid s.memory) (fun _ => true)
      (MapStore.init mapIntHash 1
        ⟨.init mapIntHash ⟨fun _ => ⟨0, 0, 0⟩, [], []⟩ (fun _ => ⟨0, 0⟩) [], []⟩ : MapStore Nat)
      [.add 5 50 2 3, .add 196 70 4 6, .add 5 51 7 8, .remove 5, .remove 9] = true := by
    decide +kernel
  obtain ⟨s', run, _⟩ := Transition.Run.of_check hrun
  obtain ⟨_, s'', hdestroy, _, hlive, _, _, hcount⟩ := map_release_never _ _ s' 1 _ run
  exact ⟨s', s'', run, hdestroy, List.perm_nil.mp hlive, hcount⟩

end BadOs
