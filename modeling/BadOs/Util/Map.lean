import BadOs.Common
import BadOs.Data.Keyed

/-!
# `map_t`

A hash table with chaining. A bucket is the list of its entries in the order in
which `list_append` put them there. Before `map_init` all fields are zero.
-/

namespace BadOs

/-- `struct map_t` with values of type `V`; `none` is a null pointer. -/
structure MapT (V : Type) where
  data : Option (Nat → List (BitVec 32 × V))
  nBuckets : BitVec 32
  hash : Option (BitVec 32 → BitVec 32)

/-- A `static struct map_t`. -/
def MapT.zero {V : Type} : MapT V := ⟨none, 0, none⟩

def mapIntHash (i : BitVec 32) : BitVec 32 := i

variable {V : Type}

def mapInit (hash : BitVec 32 → BitVec 32) : MapT V := ⟨some fun _ => [], 191, some hash⟩

/-- `map->data` and `map->hash(key) % map->n_buckets`. The remainder is taken of
unsigned numbers. -/
def mapBucket (map : MapT V) (key : BitVec 32) :
    Except Trap ((Nat → List (BitVec 32 × V)) × Nat) :=
  match map.hash with
  | none => .error .nullPointer
  | some hash =>
      if map.nBuckets = 0 then .error .divideError
      else
        match map.data with
        | none => .error .nullPointer
        | some data => .ok (data, (hash key % map.nBuckets).toNat)

def bucketAdd (key : BitVec 32) (value : V) : List (BitVec 32 × V) → List (BitVec 32 × V)
  | [] => [(key, value)]
  | e :: rest => if e.1 = key then (key, value) :: rest else e :: bucketAdd key value rest

/-- Store to `map->data[i]`. -/
def setBucket (data : Nat → List (BitVec 32 × V)) (i : Nat) (bucket : List (BitVec 32 × V)) :
    Nat → List (BitVec 32 × V) :=
  fun j => if j = i then bucket else data j

theorem setBucket_self (data : Nat → List (BitVec 32 × V)) (i : Nat)
    (bucket : List (BitVec 32 × V)) : setBucket data i bucket i = bucket := if_pos rfl

theorem setBucket_of_ne {data : Nat → List (BitVec 32 × V)} {i j : Nat}
    {bucket : List (BitVec 32 × V)} (h : j ≠ i) : setBucket data i bucket j = data j := if_neg h

def mapAdd (map : MapT V) (key : BitVec 32) (value : V) : Except Trap (MapT V) := do
  let (data, i) ← mapBucket map key
  return { map with data := some (setBucket data i (bucketAdd key value (data i))) }

def mapRemove (map : MapT V) (key : BitVec 32) : Except Trap (MapT V) := do
  let (data, i) ← mapBucket map key
  return { map with data := some (setBucket data i (Keyed.erase Prod.fst key (data i))) }

def mapLookup (map : MapT V) (key : BitVec 32) : Except Trap (Option V) := do
  let (data, i) ← mapBucket map key
  return ((data i).find? fun e => e.1 == key).map Prod.snd

/-! ## Lookup after addition -/

theorem find?_bucketAdd (key key' : BitVec 32) (value : V) (l : List (BitVec 32 × V)) :
    ((bucketAdd key value l).find? fun e => e.1 == key').map Prod.snd =
      if key = key' then some value else (l.find? fun e => e.1 == key').map Prod.snd := by
  induction l with
  | nil => by_cases h : key = key' <;> simp [bucketAdd, h]
  | cons e rest ih =>
      simp only [bucketAdd]
      by_cases he : e.1 = key
      · rw [if_pos he]
        by_cases h : key = key'
        · simp [h]
        · simp [h, he]
      · rw [if_neg he]
        by_cases h : e.1 = key'
        · have hne : ¬key = key' := fun h' => he (h.trans h'.symm)
          simp [h, hne]
        · simpa [h] using ih

/-- A map on which `map_init` has been called. -/
structure MapT.Ready (map : MapT V) (hash : BitVec 32 → BitVec 32) : Prop where
  hash_eq : map.hash = some hash
  nBuckets_eq : map.nBuckets = 191
  data_isSome : map.data.isSome

theorem mapInit_ready (hash : BitVec 32 → BitVec 32) : (mapInit hash : MapT V).Ready hash :=
  ⟨rfl, rfl, rfl⟩

namespace MapT.Ready

variable {map : MapT V} {hash : BitVec 32 → BitVec 32}

theorem mapBucket_eq (ready : map.Ready hash) (key : BitVec 32) :
    ∃ data, map.data = some data ∧ mapBucket map key = .ok (data, (hash key % 191).toNat) := by
  obtain ⟨data, hdata⟩ := Option.isSome_iff_exists.mp ready.data_isSome
  refine ⟨data, hdata, ?_⟩
  rw [mapBucket, ready.hash_eq, ready.nBuckets_eq, hdata]
  rfl

theorem mapAdd_eq (ready : map.Ready hash) (key : BitVec 32) (value : V) :
    ∃ map', mapAdd map key value = .ok map' ∧ map'.Ready hash := by
  obtain ⟨data, _, hbucket⟩ := ready.mapBucket_eq key
  refine ⟨_, Except.bind_eq_ok.mpr ⟨_, hbucket, rfl⟩, ready.hash_eq, ready.nBuckets_eq, rfl⟩

theorem mapLookup_eq (ready : map.Ready hash) (key : BitVec 32) :
    ∃ found, mapLookup map key = .ok found := by
  obtain ⟨data, _, hbucket⟩ := ready.mapBucket_eq key
  exact ⟨_, Except.bind_eq_ok.mpr ⟨_, hbucket, rfl⟩⟩

/-- Adding a value changes the lookup of its key and of no other. -/
theorem mapLookup_mapAdd (ready : map.Ready hash) {map' : MapT V} {key : BitVec 32} {value : V}
    (h : mapAdd map key value = .ok map') (key' : BitVec 32) :
    mapLookup map' key' = if key = key' then .ok (some value) else mapLookup map key' := by
  obtain ⟨data, hdata, hbucket⟩ := ready.mapBucket_eq key
  obtain ⟨data', hdata', hbucket'⟩ := ready.mapBucket_eq key'
  cases hdata.symm.trans hdata'
  obtain ⟨found, hfound, h⟩ := Except.bind_eq_ok.mp h
  cases hbucket.symm.trans hfound
  cases h
  have hbefore : mapLookup map key' =
      .ok (((data (hash key' % 191).toNat).find? fun e => e.1 == key').map Prod.snd) :=
    Except.bind_eq_ok.mpr ⟨_, hbucket', rfl⟩
  have hafter : ∀ buckets : Nat → List (BitVec 32 × V),
      mapLookup { map with data := some buckets } key' =
      .ok (((buckets (hash key' % 191).toNat).find? fun e => e.1 == key').map Prod.snd) := by
    intro buckets
    rw [mapLookup, mapBucket, ready.hash_eq, ready.nBuckets_eq]
    rfl
  rw [hafter, hbefore, setBucket]
  by_cases hsame : (hash key' % 191).toNat = (hash key % 191).toNat
  · rw [if_pos hsame, find?_bucketAdd, hsame]
    split <;> rfl
  · have hne : ¬key = key' := fun h => hsame (by rw [h])
    rw [if_neg hsame, if_neg hne]

end MapT.Ready

/-! ## The partial function -/

/-- The entries of the buckets. Every key is in the bucket of its hash, and there once. -/
structure MapT.Hashed (map : MapT V) (hash : BitVec 32 → BitVec 32) : Prop where
  ready : map.Ready hash
  bucket : ∀ data, map.data = some data → ∀ i, ∀ e ∈ data i, (hash e.1 % 191).toNat = i
  unique : ∀ data, map.data = some data → ∀ i, Keyed.Unique Prod.fst (data i)

inductive MapOp (V : Type) where
  | add (key : BitVec 32) (value : V)
  | remove (key : BitVec 32)

def mapStep (map : MapT V) : MapOp V → Except Trap (MapT V)
  | .add key value => mapAdd map key value
  | .remove key => mapRemove map key

/-- The partial function that the map stands for. -/
def MapOp.apply (f : BitVec 32 → Option V) : MapOp V → BitVec 32 → Option V
  | .add key value => Function.update f key (some value)
  | .remove key => Function.update f key none

theorem bucketAdd_of_not_mem {key : BitVec 32} {l : List (BitVec 32 × V)}
    (h : ∀ e ∈ l, e.1 ≠ key) (value : V) : bucketAdd key value l = l ++ [(key, value)] := by
  induction l with
  | nil => rfl
  | cons e l ih =>
      obtain ⟨he, hl⟩ := List.forall_mem_cons.mp h
      rw [bucketAdd, if_neg he, ih hl]
      rfl

/-- The value of the first entry with the key is replaced. -/
theorem bucketAdd_append_cons {e : BitVec 32 × V} {l₁ : List (BitVec 32 × V)}
    (h : ∀ e' ∈ l₁, e'.1 ≠ e.1) (value : V) (l₂ : List (BitVec 32 × V)) :
    bucketAdd e.1 value (l₁ ++ e :: l₂) = l₁ ++ (e.1, value) :: l₂ := by
  induction l₁ with
  | nil => exact if_pos rfl
  | cons e' l₁ ih =>
      obtain ⟨he, hl⟩ := List.forall_mem_cons.mp h
      rw [List.cons_append, bucketAdd, if_neg he, ih hl]
      rfl

theorem map_fst_bucketAdd (key : BitVec 32) (value : V) (l : List (BitVec 32 × V)) :
    (bucketAdd key value l).map Prod.fst =
      if key ∈ l.map Prod.fst then l.map Prod.fst else l.map Prod.fst ++ [key] := by
  induction l with
  | nil => rfl
  | cons e l ih =>
      rw [bucketAdd, List.map_cons]
      by_cases he : e.1 = key
      · subst he
        rw [if_pos rfl, if_pos List.mem_cons_self]
        rfl
      · rw [if_neg he, List.map_cons, ih]
        by_cases hmem : key ∈ l.map Prod.fst
        · rw [if_pos hmem, if_pos (List.mem_cons_of_mem _ hmem)]
        · rw [if_neg hmem, if_neg (List.not_mem_cons_of_ne_of_not_mem (Ne.symm he) hmem)]
          rfl

theorem mem_bucketAdd {key : BitVec 32} {value : V} {l : List (BitVec 32 × V)}
    {e : BitVec 32 × V} (h : e ∈ bucketAdd key value l) :
    (∃ e' ∈ l, e'.1 = e.1) ∨ e = (key, value) := by
  induction l with
  | nil => exact .inr (List.mem_singleton.mp h)
  | cons e' l ih =>
      rw [bucketAdd] at h
      split at h
      · obtain rfl | h := List.mem_cons.mp h
        · exact .inr rfl
        · exact .inl ⟨e, List.mem_cons_of_mem _ h, rfl⟩
      · obtain rfl | h := List.mem_cons.mp h
        · exact .inl ⟨e, List.mem_cons_self, rfl⟩
        · refine (ih h).imp_left ?_
          rintro ⟨e'', he'', heq⟩
          exact ⟨e'', List.mem_cons_of_mem _ he'', heq⟩

namespace MapT.Hashed

variable {map : MapT V} {hash : BitVec 32 → BitVec 32}

theorem init (hash : BitVec 32 → BitVec 32) : (mapInit hash : MapT V).Hashed hash where
  ready := mapInit_ready hash
  bucket := by
    rintro _ ⟨⟩ i e he
    cases he
  unique := by
    rintro _ ⟨⟩ i
    exact List.nodup_nil

theorem lookup_eq (h : map.Hashed hash) {data : Nat → List (BitVec 32 × V)}
    (hdata : map.data = some data) (key : BitVec 32) :
    mapLookup map key =
      .ok (((data (hash key % 191).toNat).find? fun e => e.1 == key).map Prod.snd) := by
  obtain ⟨data', hdata', hbucket⟩ := h.ready.mapBucket_eq key
  cases hdata.symm.trans hdata'
  exact Except.bind_eq_ok.mpr ⟨_, hbucket, rfl⟩

/-- A bucket gets new contents. -/
theorem setBucket (h : map.Hashed hash) {data : Nat → List (BitVec 32 × V)}
    (hdata : map.data = some data) {i : Nat} {bucket : List (BitVec 32 × V)}
    (hbucket : ∀ e ∈ bucket, (hash e.1 % 191).toNat = i) (unique : Keyed.Unique Prod.fst bucket) :
    MapT.Hashed { map with data := some (BadOs.setBucket data i bucket) } hash where
  ready := ⟨h.ready.hash_eq, h.ready.nBuckets_eq, rfl⟩
  bucket := by
    rintro _ ⟨⟩ j e he
    by_cases hj : j = i
    · subst hj
      rw [setBucket_self] at he
      exact hbucket e he
    · rw [setBucket_of_ne hj] at he
      exact h.bucket data hdata j e he
  unique := by
    rintro _ ⟨⟩ j
    by_cases hj : j = i
    · subst hj
      rw [setBucket_self]
      exact unique
    · rw [setBucket_of_ne hj]
      exact h.unique data hdata j

/-- A call changes the partial function at its key. -/
theorem step (h : map.Hashed hash) {f : BitVec 32 → Option V}
    (hf : ∀ key, mapLookup map key = .ok (f key)) (op : MapOp V) :
    (mapStep map op).Total fun map' =>
      map'.Hashed hash ∧ ∀ key, mapLookup map' key = .ok (op.apply f key) := by
  cases op with
  | add key value =>
      obtain ⟨data, hdata, hbucket⟩ := h.ready.mapBucket_eq key
      have hadd : mapAdd map key value = .ok { map with data := some (BadOs.setBucket data
          (hash key % 191).toNat (bucketAdd key value (data (hash key % 191).toNat))) } :=
        Except.bind_eq_ok.mpr ⟨_, hbucket, rfl⟩
      have hkeys := map_fst_bucketAdd key value (data (hash key % 191).toNat)
      have hunique := h.unique data hdata (hash key % 191).toNat
      refine ⟨_, hadd, h.setBucket hdata (fun e he => ?_) ?_, fun key' => ?_⟩
      · obtain hold | rfl := mem_bucketAdd he
        · obtain ⟨e', he', heq⟩ := hold
          rw [← heq]
          exact h.bucket data hdata _ e' he'
        · rfl
      · rw [Keyed.Unique, hkeys]
        split
        · exact hunique
        · next hnot =>
          refine List.nodup_append.mpr ⟨hunique, List.nodup_singleton key, fun a ha b hb heq => ?_⟩
          rw [heq, List.mem_singleton.mp hb] at ha
          exact hnot ha
      · rw [h.ready.mapLookup_mapAdd hadd key', hf, MapOp.apply, Function.update_apply]
        by_cases hk : key = key'
        · rw [if_pos hk, if_pos hk.symm]
        · rw [if_neg hk, if_neg (Ne.symm hk)]
  | remove key =>
      obtain ⟨data, hdata, hbucket⟩ := h.ready.mapBucket_eq key
      have hunique := h.unique data hdata (hash key % 191).toNat
      have hremove : mapRemove map key = .ok { map with data := some (BadOs.setBucket data
          (hash key % 191).toNat (Keyed.erase Prod.fst key (data (hash key % 191).toNat))) } :=
        Except.bind_eq_ok.mpr ⟨_, hbucket, rfl⟩
      have hkeys : ∀ e ∈ Keyed.erase Prod.fst key (data (hash key % 191).toNat),
          (hash e.1 % 191).toNat = (hash key % 191).toNat :=
        fun e he => h.bucket data hdata _ e (List.mem_of_mem_eraseP he)
      have hashed' := h.setBucket hdata hkeys (hunique.erase key)
      refine ⟨_, hremove, hashed', fun key' => ?_⟩
      have hbefore := (h.lookup_eq hdata key').symm.trans (hf key')
      rw [hashed'.lookup_eq rfl key', MapOp.apply, Function.update_apply]
      by_cases hk : key' = key
      · subst hk
        rw [if_pos rfl, setBucket_self, hunique.find?_erase, if_pos rfl]
        rfl
      · rw [if_neg hk, ← hbefore]
        by_cases hsame : (hash key' % 191).toNat = (hash key % 191).toNat
        · rw [hsame, setBucket_self, hunique.find?_erase, if_neg (Ne.symm hk)]
        · rw [setBucket_of_ne hsame]

end MapT.Hashed

end BadOs
