import BadOs.Util.List
import BadOs.Util.Map

/-!
# `map_t` in memory

The buckets are lists on one heap. The payload of a node is the address of an entry.
-/

namespace BadOs

/-- `struct _bucket_entry`. -/
structure BucketEntry (V : Type) where
  key : BitVec 32
  value : V

/-- `struct map_t`, with the list nodes and the entries on the heap; `items` are the entries
that are allocated. -/
structure MapMemory (V : Type) where
  data : Option (Nat → ListT)
  nBuckets : BitVec 32
  hash : Option (BitVec 32 → BitVec 32)
  heap : NodeHeap Nat
  entries : Nat → BucketEntry V
  items : List Nat

variable {V : Type}

namespace MapMemory

/-- `map_init`. -/
def init (hash : BitVec 32 → BitVec 32) (heap : NodeHeap Nat) (entries : Nat → BucketEntry V)
    (items : List Nat) : MapMemory V where
  data := some fun _ => listCreate
  nBuckets := 191
  hash := some hash
  heap := heap
  entries := entries
  items := items

/-- `map->data` and `map->hash(key) % map->n_buckets`. -/
def bucket (m : MapMemory V) (key : BitVec 32) : Except Trap ((Nat → ListT) × Nat) :=
  match m.hash with
  | none => .error .nullPointer
  | some hash =>
      if m.nBuckets = 0 then .error .divideError
      else
        match m.data with
        | none => .error .nullPointer
        | some data => .ok (data, (hash key % m.nBuckets).toNat)

def loadEntry (m : MapMemory V) (p : Nat) : Except Trap (BucketEntry V) :=
  if p ∈ m.items then .ok (m.entries p) else .error .useAfterFree

/-- Store to an entry. -/
def setEntry (m : MapMemory V) (p : Nat) (e : BucketEntry V) : MapMemory V :=
  { m with entries := Function.update m.entries p e }

/-- The loop over a bucket that all functions have. The result is the node with the key, if
there is one, and its payload. -/
def findLoop (m : MapMemory V) (key : BitVec 32) :
    (fuel node : Nat) → Except Trap (Option (Nat × Nat))
  | 0, _ => .error .diverged
  | fuel + 1, node =>
      if node = 0 then .ok none
      else do
        let n ← m.heap.load node
        let e ← m.loadEntry n.payload
        if e.key = key then return some (node, n.payload)
        else m.findLoop key fuel n.next

def find (m : MapMemory V) (key : BitVec 32) (list : ListT) : Except Trap (Option (Nat × Nat)) :=
  m.findLoop key (m.heap.live.length + 1) list.head

/-- `map_add`; `item` and `node` are what `kmem_alloc` returns if the key is new. -/
def add (m : MapMemory V) (key : BitVec 32) (value : V) (item node : Nat) :
    Except Trap (MapMemory V) := do
  let (data, i) ← m.bucket key
  match ← m.find key (data i) with
  | some (_, p) => do
      let e ← m.loadEntry p
      return m.setEntry p { e with value := value }
  | none => do
      let m := { m.setEntry item ⟨key, value⟩ with items := item :: m.items }
      let (list, heap) ← listAppend (data i) item node m.heap
      return { m with data := some (Function.update data i list), heap := heap }

/-- `map_remove`. The entry itself is not freed. -/
def remove (m : MapMemory V) (key : BitVec 32) : Except Trap (MapMemory V) := do
  let (data, i) ← m.bucket key
  match ← m.find key (data i) with
  | some (node, _) => do
      let (list, heap) ← listRemoveNode (data i) node m.heap
      return { m with data := some (Function.update data i list), heap := heap }
  | none => return m

/-- `map_lookup`. -/
def lookup (m : MapMemory V) (key : BitVec 32) : Except Trap (Option V) := do
  let (data, i) ← m.bucket key
  match ← m.find key (data i) with
  | some (_, p) => do
      let e ← m.loadEntry p
      return some e.value
  | none => return none

/-! ## Layout -/

/-- What a node of a bucket stands for. -/
def entry (m : MapMemory V) (e : Nat × Nat) : BitVec 32 × V :=
  ((m.entries e.2).key, (m.entries e.2).value)

theorem entry_setEntry_self (m : MapMemory V) (e : Nat × Nat) (e' : BucketEntry V) :
    (m.setEntry e.2 e').entry e = (e'.key, e'.value) := by
  simp [entry, setEntry]

theorem entry_setEntry_of_ne (m : MapMemory V) {e : Nat × Nat} {p : Nat} (h : e.2 ≠ p)
    (e' : BucketEntry V) : (m.setEntry p e').entry e = m.entry e := by
  simp [entry, setEntry, h]

/-- The buckets are lists that share neither nodes nor entries. -/
structure Layout (m : MapMemory V) (lists : Nat → ListT) (nodes : Nat → List (Nat × Nat)) :
    Prop where
  data : m.data = some lists
  list : ∀ i, (lists i).Represents m.heap (nodes i)
  items : ∀ i, ∀ e ∈ nodes i, e.2 ∈ m.items
  separate : ∀ i j, ∀ e ∈ nodes i, ∀ e' ∈ nodes j, e.1 = e'.1 ∨ e.2 = e'.2 → i = j ∧ e = e'

/-- The map that the memory holds. -/
structure Represents (m : MapMemory V) (map : MapT V) : Prop where
  nBuckets : m.nBuckets = map.nBuckets
  hash : m.hash = map.hash
  layout : ∃ lists nodes, m.Layout lists nodes ∧ map.data = some fun i => (nodes i).map m.entry

variable {m : MapMemory V} {lists : Nat → ListT} {nodes : Nat → List (Nat × Nat)}
  {key : BitVec 32} {i : Nat}

theorem init_represents (hash : BitVec 32 → BitVec 32) (heap : NodeHeap Nat)
    (entries : Nat → BucketEntry V) (items : List Nat) :
    (init hash heap entries items).Represents (mapInit hash) where
  nBuckets := rfl
  hash := rfl
  layout := by
    refine ⟨fun _ => listCreate, fun _ => [],
      ⟨rfl, fun _ => listCreate_represents heap, ?_, ?_⟩, rfl⟩
    · intro i e he
      cases he
    · intro i j e he
      cases he

/-- The loop finds the first node with the key. -/
theorem findLoop_eq {list : ListT} {l : List (Nat × Nat)} (hl : list.Represents m.heap l)
    (items : ∀ e ∈ l, e.2 ∈ m.items) {l' : List (Nat × Nat)} (hsub : l' ⊆ l) {p fuel : Nat}
    (hchain : Chain m.heap.next p (l'.map Prod.fst)) (hfuel : l'.length < fuel) :
    m.findLoop key fuel p = .ok (l'.find? fun e => (m.entry e).1 == key) := by
  induction l' generalizing p fuel with
  | nil =>
      obtain ⟨fuel, rfl⟩ := Nat.exists_eq_add_one_of_ne_zero hfuel.ne'
      exact if_pos hchain
  | cons e l' ih =>
      obtain ⟨fuel, rfl⟩ := Nat.exists_eq_add_one_of_ne_zero (Nat.ne_zero_of_lt hfuel)
      obtain ⟨rfl, hne, hrest⟩ := hchain
      have he : e ∈ l := hsub List.mem_cons_self
      obtain ⟨hload, hpayload⟩ := hl.load_eq he
      have hentry : m.loadEntry e.2 = .ok (m.entries e.2) := if_pos (items e he)
      rw [findLoop, if_neg hne]
      refine Except.bind_eq_ok.mpr ⟨_, hload, ?_⟩
      rw [hpayload]
      refine Except.bind_eq_ok.mpr ⟨_, hentry, ?_⟩
      rw [List.find?_cons]
      by_cases hkey : (m.entries e.2).key = key
      · rw [if_pos hkey, show ((m.entry e).1 == key) = true from beq_iff_eq.mpr hkey]
        rfl
      · rw [if_neg hkey, show ((m.entry e).1 == key) = false from beq_eq_false_iff_ne.mpr hkey]
        exact ih (fun a ha => hsub (List.mem_cons_of_mem e ha)) hrest (Nat.lt_of_succ_lt_succ hfuel)

theorem Layout.find_eq (layout : m.Layout lists nodes) (key : BitVec 32) (i : Nat) :
    m.find key (lists i) = .ok ((nodes i).find? fun e => (m.entry e).1 == key) := by
  have hl := layout.list i
  exact findLoop_eq hl (layout.items i) (List.Subset.refl _) hl.chain.forward hl.length_lt

/-- What is found in a bucket, and the nodes around it. -/
theorem find?_entry_cases (m : MapMemory V) (l : List (Nat × Nat)) (key : BitVec 32) :
    ((l.find? fun e => (m.entry e).1 == key) = none ∧ ∀ e ∈ l.map m.entry, e.1 ≠ key) ∨
      ∃ l₁ e l₂, (l.find? fun e => (m.entry e).1 == key) = some e ∧ l = l₁ ++ e :: l₂ ∧
        (m.entry e).1 = key ∧ ∀ e' ∈ l₁.map m.entry, e'.1 ≠ key := by
  cases hfind : l.find? fun e => (m.entry e).1 == key with
  | none =>
      refine .inl ⟨rfl, fun e he heq => ?_⟩
      obtain ⟨a, ha, rfl⟩ := List.mem_map.mp he
      exact List.find?_eq_none.mp hfind a ha (beq_iff_eq.mpr heq)
  | some e =>
      obtain ⟨hkey, l₁, l₂, rfl, hnot⟩ := List.find?_eq_some_iff_append.mp hfind
      refine .inr ⟨l₁, e, l₂, rfl, rfl, eq_of_beq hkey, fun e' he' heq => ?_⟩
      obtain ⟨a, ha, rfl⟩ := List.mem_map.mp he'
      have hfalse := hnot a ha
      rw [beq_iff_eq.mpr heq] at hfalse
      cases hfalse

theorem Layout.lookup (layout : m.Layout lists nodes) (hbucket : m.bucket key = .ok (lists, i)) :
    m.lookup key =
      .ok ((((nodes i).map m.entry).find? fun e => e.1 == key).map Prod.snd) := by
  refine Except.bind_eq_ok.mpr ⟨_, hbucket, ?_⟩
  refine Except.bind_eq_ok.mpr ⟨_, layout.find_eq key i, ?_⟩
  have hfirst : ((nodes i).map m.entry).find? (fun e => e.1 == key) =
      ((nodes i).find? fun e => (m.entry e).1 == key).map m.entry := List.find?_map
  rw [hfirst]
  cases hfind : (nodes i).find? fun e => (m.entry e).1 == key with
  | none => rfl
  | some e =>
      have hitem := layout.items i e (List.mem_of_find?_eq_some hfind)
      exact Except.bind_eq_ok.mpr ⟨_, if_pos hitem, rfl⟩

/-- One bucket changes, and the others do not notice. -/
theorem Layout.update {m' : MapMemory V} (layout : m.Layout lists nodes) {list : ListT}
    {bucket : List (Nat × Nat)} (hdata : m'.data = some (Function.update lists i list))
    (hlist : list.Represents m'.heap bucket)
    (frame : ∀ j, j ≠ i → ∀ e ∈ nodes j, m'.heap.nodes e.1 = m.heap.nodes e.1 ∧
      e.1 ∈ m'.heap.live ∧ e.2 ∈ m'.items)
    (items : ∀ e ∈ bucket, e.2 ∈ m'.items)
    (separate : ∀ e ∈ bucket, ∀ e' ∈ bucket, e.1 = e'.1 ∨ e.2 = e'.2 → e = e')
    (others : ∀ j, j ≠ i → ∀ e ∈ nodes j, ∀ e' ∈ bucket, ¬(e.1 = e'.1 ∨ e.2 = e'.2)) :
    m'.Layout (Function.update lists i list) (Function.update nodes i bucket) := by
  have hself : Function.update nodes i bucket i = bucket := Function.update_self i bucket nodes
  have hne : ∀ {j}, j ≠ i → Function.update nodes i bucket j = nodes j := fun hj =>
    Function.update_of_ne hj bucket nodes
  refine ⟨hdata, fun j => ?_, fun j e he => ?_, fun j j' e he e' he' heq => ?_⟩
  · by_cases hj : j = i
    · subst hj
      rw [hself, Function.update_self]
      exact hlist
    · rw [hne hj, Function.update_of_ne hj]
      exact (layout.list j).frame (fun e he => (frame j hj e he).1) fun e he =>
        (frame j hj e he).2.1
  · by_cases hj : j = i
    · subst hj
      rw [hself] at he
      exact items e he
    · rw [hne hj] at he
      exact (frame j hj e he).2.2
  · by_cases hj : j = i
    · subst hj
      rw [hself] at he
      by_cases hj' : j' = j
      · subst hj'
        rw [hself] at he'
        exact ⟨rfl, separate e he e' he' heq⟩
      · rw [hne hj'] at he'
        exact absurd (heq.imp Eq.symm Eq.symm) (others j' hj' e' he' e he)
    · rw [hne hj] at he
      by_cases hj' : j' = i
      · subst hj'
        rw [hself] at he'
        exact absurd heq (others j hj e he e' he')
      · rw [hne hj'] at he'
        exact layout.separate j j' e he e' he' heq

/-- A call changes the nodes of the bucket `i` to `bucket`, and no entry of another one. -/
structure Changes (m : MapMemory V) (lists : Nat → ListT) (nodes : Nat → List (Nat × Nat)) (i : Nat)
    (bucket : List (Nat × Nat)) (m' : MapMemory V) : Prop where
  layout : ∃ list, m'.Layout (Function.update lists i list) (Function.update nodes i bucket)
  nBuckets : m'.nBuckets = m.nBuckets
  hash : m'.hash = m.hash
  entries : ∀ j, j ≠ i → ∀ e ∈ nodes j, m'.entry e = m.entry e

/-- Only entries change. -/
theorem Changes.of_layout {m' : MapMemory V} (layout : m'.Layout lists nodes)
    (nBuckets : m'.nBuckets = m.nBuckets) (hash : m'.hash = m.hash)
    (entries : ∀ j, j ≠ i → ∀ e ∈ nodes j, m'.entry e = m.entry e) :
    m.Changes lists nodes i (nodes i) m' := by
  refine ⟨⟨lists i, ?_⟩, nBuckets, hash, entries⟩
  rw [Function.update_eq_self, Function.update_eq_self]
  exact layout

/-- Neither the nodes nor what is allocated changes. -/
theorem Layout.congr {m' : MapMemory V} (layout : m.Layout lists nodes) (data : m'.data = m.data)
    (heap : m'.heap = m.heap) (items : m'.items = m.items) : m'.Layout lists nodes where
  data := data.trans layout.data
  list j := heap ▸ layout.list j
  items j e he := items ▸ layout.items j e he
  separate := layout.separate

/-- A new node at the end of a bucket, with an item of its own. -/
theorem Layout.append {m' : MapMemory V} (layout : m.Layout lists nodes) {list : ListT}
    {item node : Nat} (hitem : item ∉ m.items) (hnode : node ∉ m.heap.live)
    (hdata : m'.data = some (Function.update lists i list))
    (hlist : list.Represents m'.heap (nodes i ++ [(node, item)]))
    (hlive : m'.heap.live = node :: m.heap.live) (hitems : m'.items = item :: m.items)
    (hframe : ∀ x ∉ (nodes i).map Prod.fst, x ≠ node → m'.heap.nodes x = m.heap.nodes x) :
    m'.Layout (Function.update lists i list)
      (Function.update nodes i (nodes i ++ [(node, item)])) := by
  have hnew : ∀ j, ∀ e ∈ nodes j, ¬(e.1 = node ∨ e.2 = item) := by
    rintro j e he (rfl | rfl)
    · exact hnode ((layout.list j).live e he)
    · exact hitem (layout.items j e he)
  have hlast : ∀ e ∈ nodes i ++ [(node, item)], e ∈ nodes i ∨ e = (node, item) := fun e he =>
    (List.mem_append.mp he).imp_right List.mem_singleton.mp
  refine layout.update hdata hlist (fun j hj e he => ⟨?_, ?_, ?_⟩) ?_ ?_ ?_
  · refine hframe e.1 (fun hmem => ?_) fun heq => hnew j e he (.inl heq)
    obtain ⟨e', he', heq⟩ := List.mem_map.mp hmem
    exact hj (layout.separate j i e he e' he' (.inl heq.symm)).1
  · rw [hlive]
    exact List.mem_cons_of_mem _ ((layout.list j).live e he)
  · rw [hitems]
    exact List.mem_cons_of_mem _ (layout.items j e he)
  · intro e he
    rw [hitems]
    obtain he | rfl := hlast e he
    · exact List.mem_cons_of_mem _ (layout.items i e he)
    · exact List.mem_cons_self
  · intro e he e' he' heq
    obtain he | rfl := hlast e he
    · obtain he' | rfl := hlast e' he'
      · exact (layout.separate i i e he e' he' heq).2
      · exact absurd heq (hnew i e he)
    · obtain he' | rfl := hlast e' he'
      · exact absurd (heq.imp Eq.symm Eq.symm) (hnew i e' he')
      · rfl
  · intro j hj e he e' he' heq
    obtain he' | rfl := hlast e' he'
    · exact hj (layout.separate j i e he e' he' heq).1
    · exact hnew j e he heq

/-- The entry of a node is not that of another one. -/
theorem Layout.entry_setEntry (layout : m.Layout lists nodes) {j : Nat} {e e' : Nat × Nat}
    (he : e ∈ nodes i) (he' : e' ∈ nodes j) (hne : e' ≠ e) (b : BucketEntry V) :
    (m.setEntry e.2 b).entry e' = m.entry e' :=
  m.entry_setEntry_of_ne (fun heq => hne (layout.separate j i e' he' e he (.inr heq)).2) b

/-- The first entry with the key gets the value. -/
theorem Layout.map_setEntry (layout : m.Layout lists nodes) {l₁ l₂ : List (Nat × Nat)}
    {e : Nat × Nat} (hsplit : nodes i = l₁ ++ e :: l₂)
    (hnot : ∀ e' ∈ l₁.map m.entry, e'.1 ≠ (m.entry e).1) (value : V) :
    (nodes i).map (m.setEntry e.2 { m.entries e.2 with value := value }).entry =
      bucketAdd (m.entry e).1 value ((nodes i).map m.entry) := by
  have he : e ∈ nodes i := hsplit ▸ List.mem_append_right l₁ List.mem_cons_self
  have hnodup : (l₁ ++ e :: l₂).Nodup := hsplit ▸ (layout.list i).unique.of_map
  have hsub : ∀ e' ∈ l₁ ++ e :: l₂, e' ∈ nodes i := fun e' he' => hsplit ▸ he'
  have hleft : ∀ e' ∈ l₁, e' ≠ e := fun e' he' =>
    (List.nodup_append.mp hnodup).2.2 e' he' e List.mem_cons_self
  have hright : ∀ e' ∈ l₂, e' ≠ e := by
    rintro e' he' rfl
    exact (List.nodup_cons.mp (List.nodup_append.mp hnodup).2.1).1 he'
  rw [hsplit, List.map_append, List.map_cons, List.map_append, List.map_cons,
    bucketAdd_append_cons hnot, entry_setEntry_self, List.map_congr_left fun e' he' =>
      layout.entry_setEntry he (hsub e' (List.mem_append_left _ he')) (hleft e' he') _,
    List.map_congr_left fun e' he' => layout.entry_setEntry he
      (hsub e' (List.mem_append_right _ (List.mem_cons_of_mem _ he'))) (hright e' he') _]
  rfl

/-- An entry of the bucket gets a new value, or there is a new one at the end. -/
theorem Layout.add (layout : m.Layout lists nodes) (hbucket : m.bucket key = .ok (lists, i))
    (value : V) {item node : Nat} (hitem : item ∉ m.items) (hnode : node ≠ 0)
    (hnew : node ∉ m.heap.live) :
    (m.add key value item node).Total fun m' => ∃ bucket, m.Changes lists nodes i bucket m' ∧
      bucket.map m'.entry = bucketAdd key value ((nodes i).map m.entry) ∧
      (bucket = nodes i ∧ m'.heap.live = m.heap.live ∧ m'.items = m.items ∨
        bucket = nodes i ++ [(node, item)] ∧ m'.heap.live = node :: m.heap.live ∧
          m'.items = item :: m.items) := by
  refine .bind ⟨_, hbucket, rfl⟩ ?_
  rintro _ rfl
  refine .bind ⟨_, layout.find_eq key _, rfl⟩ ?_
  rintro _ rfl
  obtain ⟨hfind, hnot⟩ | ⟨l₁, e, l₂, hfind, hsplit, hkey, hnot⟩ :=
    find?_entry_cases m (nodes i) key
  · rw [hfind]
    refine .bind ((layout.list i).append hnode hnew item) ?_
    rintro ⟨list, heap⟩ ⟨hlist, hlive, _, hframe⟩
    have hold : ∀ j, ∀ e ∈ nodes j, (m.setEntry item ⟨key, value⟩).entry e = m.entry e := by
      intro j e he
      have hne : e.2 ≠ item := fun heq => hitem (heq ▸ layout.items j e he)
      exact m.entry_setEntry_of_ne hne _
    have hentries : (nodes i ++ [(node, item)]).map (m.setEntry item ⟨key, value⟩).entry =
        bucketAdd key value ((nodes i).map m.entry) := by
      rw [bucketAdd_of_not_mem hnot, List.map_append, List.map_congr_left (hold i)]
      exact congrArg (fun e => _ ++ [e]) (m.entry_setEntry_self (node, item) _)
    refine .ok ⟨_, ⟨⟨list, ?_⟩, rfl, rfl, fun j _ => hold j⟩, hentries, .inr ⟨rfl, hlive, rfl⟩⟩
    exact layout.append hitem hnew rfl hlist hlive rfl hframe
  · rw [hfind]
    subst hkey
    have he : e ∈ nodes i := hsplit ▸ List.mem_append_right l₁ List.mem_cons_self
    have hload : m.loadEntry e.2 = .ok (m.entries e.2) := if_pos (layout.items i e he)
    refine .bind ⟨_, hload, rfl⟩ ?_
    rintro _ rfl
    have hothers : ∀ j, j ≠ i → ∀ e' ∈ nodes j, e' ≠ e := by
      rintro j hj e' he' rfl
      exact hj (layout.separate j i e' he' e' he (.inl rfl)).1
    refine .ok ⟨nodes i, ?_, layout.map_setEntry hsplit hnot value, .inl ⟨rfl, rfl, rfl⟩⟩
    exact .of_layout (layout.congr rfl rfl rfl) rfl rfl fun j hj e' he' =>
      layout.entry_setEntry he he' (hothers j hj e' he') _

/-- The node with the key leaves the bucket. -/
theorem Layout.remove (layout : m.Layout lists nodes) (hbucket : m.bucket key = .ok (lists, i)) :
    (m.remove key).Total fun m' => ∃ bucket, m.Changes lists nodes i bucket m' ∧
      bucket.map m'.entry = Keyed.erase Prod.fst key ((nodes i).map m.entry) ∧
      m'.items = m.items ∧
      (bucket = nodes i ∧ m'.heap.live = m.heap.live ∧ (∀ e ∈ (nodes i).map m.entry, e.1 ≠ key) ∨
        ∃ l₁ e l₂, nodes i = l₁ ++ e :: l₂ ∧ bucket = l₁ ++ l₂ ∧ (m.entry e).1 = key ∧
          m'.heap.live = m.heap.live.erase e.1) := by
  refine .bind ⟨_, hbucket, rfl⟩ ?_
  rintro _ rfl
  refine .bind ⟨_, layout.find_eq key _, rfl⟩ ?_
  rintro _ rfl
  obtain ⟨hfind, hnot⟩ | ⟨l₁, e, l₂, hfind, hsplit, hkey, hnot⟩ :=
    find?_entry_cases m (nodes i) key
  · rw [hfind]
    have herase : Keyed.erase Prod.fst key ((nodes i).map m.entry) = (nodes i).map m.entry :=
      List.eraseP_of_forall_not fun e he heq => hnot e he (eq_of_beq heq)
    exact .ok ⟨nodes i, .of_layout layout rfl rfl fun _ _ _ _ => rfl, herase.symm, rfl,
      .inl ⟨rfl, rfl, hnot⟩⟩
  · rw [hfind]
    subst hkey
    have hl : (lists i).Represents m.heap (l₁ ++ e :: l₂) := hsplit ▸ layout.list i
    refine .bind hl.remove ?_
    rintro ⟨list, heap⟩ ⟨hlist, hlive, _, hframe⟩
    have he : e ∈ nodes i := hsplit ▸ List.mem_append_right l₁ List.mem_cons_self
    have hsub : ∀ a ∈ l₁ ++ l₂, a ∈ nodes i := fun a ha => hsplit ▸
      List.mem_append.mpr ((List.mem_append.mp ha).imp_right (List.mem_cons_of_mem e))
    have hentries : (l₁ ++ l₂).map m.entry =
        Keyed.erase Prod.fst (m.entry e).1 ((nodes i).map m.entry) := by
      rw [hsplit, List.map_append, List.map_append, List.map_cons, Keyed.erase_append_cons]
      intro hmem
      obtain ⟨a, ha, heq⟩ := List.mem_map.mp hmem
      exact hnot a ha heq
    refine .ok ⟨l₁ ++ l₂, ⟨⟨list, ?_⟩, rfl, rfl, fun _ _ _ _ => rfl⟩, hentries, rfl,
      .inr ⟨l₁, e, l₂, hsplit, rfl, rfl, hlive⟩⟩
    refine layout.update rfl hlist (fun j hj a ha => ⟨?_, ?_, ?_⟩)
      (fun a ha => layout.items i a (hsub a ha)) ?_ ?_
    · refine hframe a.1 fun hmem => ?_
      rw [← hsplit] at hmem
      obtain ⟨b, hb, heq⟩ := List.mem_map.mp hmem
      exact hj (layout.separate j i a ha b hb (.inl heq.symm)).1
    · rw [hlive]
      refine (List.mem_erase_of_ne fun heq => ?_).mpr ((layout.list j).live a ha)
      exact hj (layout.separate j i a ha e he (.inl heq)).1
    · exact layout.items j a ha
    · exact fun a ha b hb heq => (layout.separate i i a (hsub a ha) b (hsub b hb) heq).2
    · exact fun j hj a ha b hb heq => hj (layout.separate j i a ha b (hsub b hb) heq).1

namespace Represents

variable {map : MapT V} {hash : BitVec 32 → BitVec 32}

theorem bucket_eq (h : m.Represents map) (ready : map.Ready hash) (hdata : m.data = some lists)
    (key : BitVec 32) : m.bucket key = .ok (lists, (hash key % 191).toNat) := by
  rw [bucket, h.hash, h.nBuckets, ready.hash_eq, ready.nBuckets_eq, hdata]
  rfl

theorem lookup (h : m.Represents map) (ready : map.Ready hash) (key : BitVec 32) :
    m.lookup key = mapLookup map key := by
  obtain ⟨lists, nodes, layout, hdata⟩ := h.layout
  obtain ⟨data, hdata', hbucket⟩ := ready.mapBucket_eq key
  cases hdata.symm.trans hdata'
  rw [layout.lookup (h.bucket_eq ready layout.data key)]
  symm
  exact Except.bind_eq_ok.mpr ⟨_, hbucket, rfl⟩

/-- The map after a change of one bucket. -/
theorem changes {m' : MapMemory V} {bucket : List (Nat × Nat)} (h : m.Represents map)
    (change : m.Changes lists nodes i bucket m') : m'.Represents { map with
      data := some (setBucket (fun j => (nodes j).map m.entry) i (bucket.map m'.entry)) } where
  nBuckets := change.nBuckets.trans h.nBuckets
  hash := change.hash.trans h.hash
  layout := by
    obtain ⟨list, layout⟩ := change.layout
    refine ⟨_, _, layout, congrArg some (funext fun j => ?_)⟩
    by_cases hj : j = i
    · subst hj
      rw [setBucket_self, Function.update_self]
    · rw [setBucket_of_ne hj, Function.update_of_ne hj]
      exact List.map_congr_left fun e he => (change.entries j hj e he).symm

theorem add (h : m.Represents map) (ready : map.Ready hash) (key : BitVec 32) (value : V)
    {item node : Nat} (hitem : item ∉ m.items) (hnode : node ≠ 0) (hnew : node ∉ m.heap.live) :
    (m.add key value item node).Total fun m' =>
      ∃ map', mapAdd map key value = .ok map' ∧ m'.Represents map' := by
  obtain ⟨lists, nodes, layout, hdata⟩ := h.layout
  obtain ⟨data, hdata', hbucket⟩ := ready.mapBucket_eq key
  cases hdata.symm.trans hdata'
  refine (layout.add (h.bucket_eq ready layout.data key) value hitem hnode hnew).mono ?_
  rintro m' ⟨bucket, change, hentries, _⟩
  refine ⟨_, Except.bind_eq_ok.mpr ⟨_, hbucket, rfl⟩, ?_⟩
  rw [← hentries]
  exact h.changes change

theorem remove (h : m.Represents map) (ready : map.Ready hash) (key : BitVec 32) :
    (m.remove key).Total fun m' =>
      ∃ map', mapRemove map key = .ok map' ∧ m'.Represents map' := by
  obtain ⟨lists, nodes, layout, hdata⟩ := h.layout
  obtain ⟨data, hdata', hbucket⟩ := ready.mapBucket_eq key
  cases hdata.symm.trans hdata'
  refine (layout.remove (h.bucket_eq ready layout.data key)).mono ?_
  rintro m' ⟨bucket, change, hentries, _⟩
  refine ⟨_, Except.bind_eq_ok.mpr ⟨_, hbucket, rfl⟩, ?_⟩
  rw [← hentries]
  exact h.changes change

end Represents

/-- The entries that `LIST_FOREACH` visits in a bucket. -/
def bucketEntries (m : MapMemory V) (list : ListT) : List (BucketEntry V) :=
  (list.nodes m.heap).map fun p => m.entries (m.heap.nodes p).payload

theorem Layout.bucketEntries_eq (layout : m.Layout lists nodes) (i : Nat) :
    m.bucketEntries (lists i) = (nodes i).map fun e => m.entries e.2 := by
  rw [bucketEntries, (layout.list i).nodes_eq, List.map_map]
  exact List.map_congr_left fun e he => congrArg m.entries ((layout.list i).payload e he)

end MapMemory

/-! ## Histories -/

inductive MapCall (V : Type) where
  /-- `kmem_alloc` returns `item` and `node` if it is called. -/
  | add (key : BitVec 32) (value : V) (item node : Nat)
  | remove (key : BitVec 32)

namespace MapCall

/-- The call without the addresses. -/
def op : MapCall V → MapOp V
  | add key value _ _ => .add key value
  | remove key => .remove key

/-- `kmem_alloc` returns addresses that are not in use. -/
def Valid (m : MapMemory V) : MapCall V → Prop
  | add _ _ item node => item ∉ m.items ∧ node ≠ 0 ∧ node ∉ m.heap.live
  | remove _ => True

instance (m : MapMemory V) (c : MapCall V) : Decidable (c.Valid m) := by
  cases c with
  | add key value item node => exact inferInstanceAs (Decidable (_ ∧ _))
  | remove key => exact isTrue trivial

end MapCall

def mapCallStep (m : MapMemory V) : MapCall V → Except Trap (MapMemory V)
  | .add key value item node => m.add key value item node
  | .remove key => m.remove key

/-- The memory, the map that it holds, and the partial function. -/
structure MapMemory.Refines (hash : BitVec 32 → BitVec 32) (m : MapMemory V)
    (f : BitVec 32 → Option V) : Prop where
  map : ∃ map : MapT V, m.Represents map ∧ map.Hashed hash ∧ ∀ key, mapLookup map key = .ok (f key)

theorem MapMemory.Refines.step {hash : BitVec 32 → BitVec 32} {m : MapMemory V}
    {f : BitVec 32 → Option V} (h : m.Refines hash f) {c : MapCall V} (valid : c.Valid m) :
    (mapCallStep m c).Total fun m' => m'.Refines hash (c.op.apply f) := by
  obtain ⟨map, hmap, hashed, hf⟩ := h.map
  obtain ⟨map', hstep, hashed', hf'⟩ := hashed.step hf c.op
  have htotal : (mapCallStep m c).Total fun m' =>
      ∃ map', mapStep map c.op = .ok map' ∧ m'.Represents map' := by
    cases c with
    | add key value item node =>
        exact hmap.add hashed.ready key value valid.1 valid.2.1 valid.2.2
    | remove key => exact hmap.remove hashed.ready key
  refine htotal.mono ?_
  rintro m' ⟨map'', hstep', hmap'⟩
  cases hstep.symm.trans hstep'
  exact ⟨map', hmap', hashed', hf'⟩

/-- After `map_init` and any calls, a lookup gives the value of the last `map_add` with the
key that was not followed by a `map_remove` with it. The bucket of a key is one of the
buckets; each entry is in the bucket of its key, where no other entry has the key. Every
further call returns. -/
theorem map_refines (hash : BitVec 32 → BitVec 32) (heap : NodeHeap Nat)
    (entries : Nat → BucketEntry V) (items : List Nat) (calls : List (MapCall V))
    (m : MapMemory V)
    (run : Transition.Run mapCallStep (fun m c => c.Valid m)
      (.init hash heap entries items) calls m) :
    (∀ key, m.lookup key =
        .ok ((calls.map MapCall.op).foldl MapOp.apply (fun _ => none) key)) ∧
      (∃ lists, (∀ key, m.bucket key = .ok (lists, (hash key % m.nBuckets).toNat) ∧
          (hash key % m.nBuckets).toNat < m.nBuckets.toNat) ∧
        ∀ i, ((m.bucketEntries (lists i)).map BucketEntry.key).Nodup ∧
          ∀ e ∈ m.bucketEntries (lists i), (hash e.key % m.nBuckets).toNat = i) ∧
      ∀ c : MapCall V, c.Valid m → ∃ m', mapCallStep m c = .ok m' := by
  have hrefines : m.Refines hash (calls.foldl (fun f c => c.op.apply f) fun _ => none) := by
    refine run.simulates (R := fun m f => m.Refines hash f) (fun m f c m' h valid hstep => ?_) ?_
    · exact (h.step valid).post _ hstep
    · refine ⟨mapInit hash, MapMemory.init_represents hash heap entries items, .init hash, ?_⟩
      exact fun key => (MapT.Hashed.init hash).lookup_eq rfl key
  obtain ⟨map, hmap, hashed, hf⟩ := hrefines.map
  obtain ⟨lists, nodes, layout, hdata⟩ := hmap.layout
  have hn : m.nBuckets = 191 := hmap.nBuckets.trans hashed.ready.nBuckets_eq
  refine ⟨fun key => ?_, ⟨lists, fun key => ?_, fun i => ?_⟩, fun c valid => ?_⟩
  · rw [hmap.lookup hashed.ready, hf, List.foldl_map]
  · rw [hn]
    refine ⟨hmap.bucket_eq hashed.ready layout.data key, ?_⟩
    rw [BitVec.toNat_umod]
    exact Nat.mod_lt _ (by decide)
  · rw [layout.bucketEntries_eq, hn]
    have hunique := hashed.unique _ hdata i
    rw [Keyed.Unique, List.map_map] at hunique
    rw [List.map_map]
    refine ⟨hunique, fun e he => ?_⟩
    obtain ⟨a, ha, rfl⟩ := List.mem_map.mp he
    exact hashed.bucket _ hdata i (m.entry a) (List.mem_map_of_mem ha)
  · obtain ⟨m', hm', _⟩ := hrefines.step valid
    exact ⟨m', hm'⟩

/-- Keys with the same hash, one of them negative. -/
theorem map_refines_run : ∃ m : MapMemory Nat,
    Transition.Run mapCallStep (fun m c => c.Valid m)
      (.init (fun _ => -1) ⟨fun _ => ⟨0, 0, 0⟩, [], []⟩ (fun _ => ⟨0, 0⟩) [])
      [.add 5 50 1 2, .add (-7) 70 3 4, .add 5 51 6 7, .remove 5, .add 5 52 6 2] m ∧
      m.lookup 5 = .ok (some 52) ∧ m.lookup (-7) = .ok (some 70) := by
  have hrun : Transition.check mapCallStep (fun m c => c.Valid m) (fun _ => true)
      (.init (fun _ => -1) ⟨fun _ => ⟨0, 0, 0⟩, [], []⟩ (fun _ => ⟨0, 0⟩) [] : MapMemory Nat)
      [.add 5 50 1 2, .add (-7) 70 3 4, .add 5 51 6 7, .remove 5, .add 5 52 6 2] = true := by
    decide +kernel
  obtain ⟨m, run, _⟩ := Transition.Run.of_check hrun
  obtain ⟨hlookup, _⟩ := map_refines _ _ _ _ _ m run
  exact ⟨m, run, hlookup 5, hlookup (-7)⟩

end BadOs
