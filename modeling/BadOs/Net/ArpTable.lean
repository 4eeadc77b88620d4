import BadOs.Net.Sending

/-!
# The arrays of the ARP table

`struct arp_table` is two arrays of 128 elements and a counter. Nothing removes an entry, a
store goes behind the last one, and a lookup takes the first that fits.
-/

namespace BadOs

/-- `struct arp_table`, with its arrays. -/
structure ArpArrays where
  ips : Vector (BitVec 32) 128
  macs : Vector Mac 128
  count : BitVec 16

/-- After `init_arp`, the arrays hold anything. -/
def initArp (ips : Vector (BitVec 32) 128) (macs : Vector Mac 128) : ArpArrays := ⟨ips, macs, 0⟩

namespace ArpArrays

/-- The loop of `arp_lookup` from index `e` on, with `left` indices to go. -/
def lookupLoop (t : ArpArrays) (ip : BitVec 32) : (left e : Nat) → Except Trap (Option Mac)
  | 0, _ => .ok none
  | left + 1, e =>
      if h : e < 128 then
        if t.ips[e] = ip then .ok (some t.macs[e]) else t.lookupLoop ip left (e + 1)
      else .error .outOfBounds

/-- What `arp_lookup` reads of the table. -/
def lookup (t : ArpArrays) (ip : BitVec 32) : Except Trap (Option Mac) :=
  t.lookupLoop ip t.count.toNat 0

/-- `arp_store`. -/
def store (t : ArpArrays) (dest : Mac) (ip : BitVec 32) : Except Trap ArpArrays :=
  if h : t.count.toNat < 128 then
    .ok ⟨t.ips.set t.count.toNat ip, t.macs.set t.count.toNat dest, t.count + 1⟩
  else .error .outOfBounds

end ArpArrays

/-- A call that reads or writes the table, on a host with any device. -/
inductive ArpCall where
  | packet (dev : NetDevice) (data : ByteMem)
  | store (dest : Mac) (ip : BitVec 32)
  | lookup (dev : NetDevice) (ip : BitVec 32)

/-- The call with the table as a list. -/
def arpCall (n : Net) : ArpCall → Except Trap Net
  | .packet dev data => arpPacket dev data n
  | .store dest ip => arpStore dest ip n
  | .lookup dev ip => do
      let (_, n) ← arpLookup dev ip n
      return n

/-- What the call does to the arrays. Replies and requests leave them alone. -/
def arraysCall (t : ArpArrays) : ArpCall → Except Trap ArpArrays
  | .packet dev data =>
      let operation : BitVec 16 := data.read 6 2
      let senderMac : Mac := data.read 8 6
      let senderIp : BitVec 32 := data.read 14 4
      let targetIp : BitVec 32 := data.read 24 4
      if ntol targetIp ≠ dev.ip then .ok t
      else if ntos operation = 1 then .ok t
      else t.store senderMac (ntol senderIp)
  | .store dest ip => t.store dest ip
  | .lookup _ ip => do
      let _ ← t.lookup ip
      return t

/-! ## The entries -/

/-- The first MAC for an address in a list of mappings. -/
def firstMapping (l : List (BitVec 32 × Mac)) (ip : BitVec 32) : Option Mac :=
  (l.find? fun e => e.1 == ip).map Prod.snd

theorem firstMapping_cons (e : BitVec 32 × Mac) (l : List (BitVec 32 × Mac)) (ip : BitVec 32) :
    firstMapping (e :: l) ip = if e.1 = ip then some e.2 else firstMapping l ip := by
  by_cases h : e.1 = ip
  · simp [firstMapping, h]
  · simp [firstMapping, h]

theorem firstMapping_isSome_iff (l : List (BitVec 32 × Mac)) (ip : BitVec 32) :
    (∃ mac, firstMapping l ip = some mac) ↔ ∃ mac, (ip, mac) ∈ l := by
  induction l with
  | nil => simp [firstMapping]
  | cons e l ih =>
      obtain ⟨ip', mac⟩ := e
      rw [firstMapping_cons]
      by_cases h : ip' = ip
      · subst h
        rw [if_pos rfl]
        exact ⟨fun _ => ⟨mac, List.mem_cons_self⟩, fun _ => ⟨mac, rfl⟩⟩
      · rw [if_neg h, ih]
        refine exists_congr fun mac' => (List.mem_cons.trans (or_iff_right ?_)).symm
        exact fun heq => h (congrArg Prod.fst heq).symm

namespace ArpArrays

/-- The arrays up to the counter. -/
def entries (t : ArpArrays) : List (BitVec 32 × Mac) :=
  (t.ips.toList.zip t.macs.toList).take t.count.toNat

variable {t : ArpArrays}

theorem length_entries (h : t.count.toNat ≤ 128) : t.entries.length = t.count.toNat := by
  rw [entries, List.length_take, List.length_zip, Vector.length_toList, Vector.length_toList]
  omega

theorem getElem_entries {i : Nat} (hi : i < t.entries.length) (h : i < 128) :
    t.entries[i] = (t.ips[i], t.macs[i]) := by
  simp [entries]

/-- The loop finds the first entry for the address. -/
theorem lookupLoop_eq (hcount : t.count.toNat ≤ 128) (ip : BitVec 32) {left e : Nat}
    (h : e + left = t.count.toNat) :
    t.lookupLoop ip left e = .ok (firstMapping (t.entries.drop e) ip) := by
  have hlength := length_entries hcount
  induction left generalizing e with
  | zero =>
      rw [List.drop_eq_nil_of_le (by omega)]
      rfl
  | succ left ih =>
      have he : e < 128 := by omega
      rw [lookupLoop, dif_pos he, List.drop_eq_getElem_cons (by omega), getElem_entries _ he,
        firstMapping_cons]
      by_cases heq : t.ips[e] = ip
      · rw [if_pos heq, if_pos heq]
      · rw [if_neg heq, if_neg heq]
        exact ih (by omega)

theorem lookup_eq (hcount : t.count.toNat ≤ 128) (ip : BitVec 32) :
    t.lookup ip = .ok (firstMapping t.entries ip) := lookupLoop_eq hcount ip (Nat.zero_add _)

/-- A store goes behind the last entry. -/
theorem store_total (h : t.count.toNat < 128) (dest : Mac) (ip : BitVec 32) :
    (t.store dest ip).Total fun t' =>
      t'.count.toNat = t.count.toNat + 1 ∧ t'.entries = t.entries ++ [(ip, dest)] := by
  rw [store, dif_pos h]
  have hcount : (t.count + 1).toNat = t.count.toNat + 1 :=
    BitVec.toNat_add_of_lt (by change t.count.toNat + 1 < 65536; omega)
  refine .ok ⟨hcount, ?_⟩
  have hold := length_entries (Nat.le_of_lt h)
  have hnew := length_entries (t := ⟨t.ips.set t.count.toNat ip, t.macs.set t.count.toNat dest,
    t.count + 1⟩) (by change (t.count + 1).toNat ≤ 128; omega)
  refine List.ext_getElem (by rw [hnew, List.length_append, hold, hcount]; rfl) fun i hi hi' => ?_
  have hlt : i < t.count.toNat + 1 := by rw [hnew, hcount] at hi; exact hi
  rw [getElem_entries hi (by omega)]
  by_cases heq : i = t.count.toNat
  · subst heq
    rw [List.getElem_append_right (by omega)]
    simp
  · rw [List.getElem_append_left (by omega), getElem_entries _ (by omega)]
    simp [Vector.getElem_set_ne _ _ (Ne.symm heq)]

end ArpArrays

/-! ## The two levels -/

/-- The arrays hold the entries of the list. -/
structure ArpArrays.Represents (t : ArpArrays) (n : Net) : Prop where
  count : t.count.toNat ≤ 128
  entries : t.entries = n.table.entries
  fresh : n.Fresh

namespace ArpArrays.Represents

variable {t : ArpArrays} {n : Net}

theorem lookup (h : t.Represents n) (ip : BitVec 32) : t.lookup ip = .ok (n.macOf ip) := by
  rw [lookup_eq h.count, h.entries]
  rfl

/-- Both tables have room, or neither has. -/
theorem store (h : t.Represents n) (dest : Mac) (ip : BitVec 32) :
    Except.Lockstep Represents (t.store dest ip) (arpStore dest ip n) := by
  have hlength : n.table.entries.length = t.count.toNat := h.entries ▸ length_entries h.count
  by_cases hroom : t.count.toNat < 128
  · obtain ⟨t', ht', hcount, hentries⟩ := store_total hroom dest ip
    rw [ht', arpStore, dif_pos (by omega)]
    exact .ok ⟨by omega, hentries.trans (congrArg (· ++ _) h.entries), h.fresh⟩
  · rw [ArpArrays.store, arpStore, dif_neg hroom, dif_neg (by omega)]
    exact .error _

/-- A computation that leaves the table alone. -/
theorem of_total {x : Except Trap Net} (h : t.Represents n) (htotal : x.Total n.Grows) :
    Except.Lockstep Represents (.ok t) x := by
  obtain ⟨n', rfl, grows⟩ := htotal
  have htable := congrArg ArpTable.entries grows.same.table
  exact .ok ⟨h.count, h.entries.trans htable.symm, grows.fresh⟩

/-- The calls do to the arrays what they do to the list. -/
theorem call (h : t.Represents n) (c : ArpCall) :
    Except.Lockstep Represents (arraysCall t c) (arpCall n c) := by
  cases c with
  | store dest ip => exact h.store dest ip
  | lookup dev ip =>
      rw [arraysCall, h.lookup]
      exact h.of_total ((arpLookup_total h.fresh dev ip).bind fun r grows => .ok grows)
  | packet dev data =>
      dsimp only [arraysCall, arpCall, arpPacket]
      split
      · exact .ok h
      · split
        · exact h.of_total (reply_total h.fresh dev _ _ false)
        · exact h.store _ _

theorem exec (h : t.Represents n) (calls : List ArpCall) :
    Except.Lockstep Represents (Transition.exec arraysCall t calls)
      (Transition.exec arpCall n calls) := by
  induction calls generalizing t n with
  | nil => exact .ok h
  | cons c calls ih => exact (h.call c).bind fun t' n' h' => ih h'

end ArpArrays.Represents

/-! ## Histories -/

/-- The mapping that a call stores. -/
def ArpCall.mapping? : ArpCall → Option (BitVec 32 × Mac)
  | .packet dev data =>
      if ntol (data.read 24 4) ≠ dev.ip then none
      else if ntos (data.read 6 2) = 1 then none
      else some (ntol (data.read 14 4), data.read 8 6)
  | .store dest ip => some (ip, dest)
  | .lookup _ _ => none

def mappings (calls : List ArpCall) : List (BitVec 32 × Mac) := calls.filterMap ArpCall.mapping?

theorem mappings_cons_none {c : ArpCall} (h : c.mapping? = none) (calls : List ArpCall) :
    mappings (c :: calls) = mappings calls := List.filterMap_cons_none h

theorem mappings_cons_some {c : ArpCall} {e : BitVec 32 × Mac} (h : c.mapping? = some e)
    (calls : List ArpCall) : mappings (c :: calls) = e :: mappings calls :=
  List.filterMap_cons_some h

section

variable {t : ArpArrays} {c : ArpCall} {ip : BitVec 32} {mac : Mac}

theorem arraysCall_none (hcount : t.count.toNat ≤ 128) (h : c.mapping? = none) :
    arraysCall t c = .ok t := by
  cases c with
  | store dest ip => cases h
  | lookup dev ip =>
      rw [arraysCall, ArpArrays.lookup_eq hcount]
      rfl
  | packet dev data =>
      dsimp only [ArpCall.mapping?] at h
      dsimp only [arraysCall]
      split
      · rfl
      · next htarget =>
        rw [if_neg htarget] at h
        split
        · rfl
        · next hoperation =>
          rw [if_neg hoperation] at h
          cases h

theorem arraysCall_some (h : c.mapping? = some (ip, mac)) : arraysCall t c = t.store mac ip := by
  cases c with
  | store dest ip =>
      cases h
      rfl
  | lookup dev ip => cases h
  | packet dev data =>
      dsimp only [ArpCall.mapping?] at h
      dsimp only [arraysCall]
      split at h
      · cases h
      · next htarget =>
        rw [if_neg htarget]
        split at h
        · cases h
        · next hoperation =>
          rw [if_neg hoperation]
          cases h
          rfl

/-- The arrays hold the mappings in the order in which they were stored, as long as there is
room for them. -/
theorem exec_arraysCall (calls : List ArpCall) (hcount : t.count.toNat ≤ 128) :
    (t.count.toNat + (mappings calls).length ≤ 128 ∧
        (Transition.exec arraysCall t calls).Total fun t' =>
          t'.count.toNat ≤ 128 ∧ t'.entries = t.entries ++ mappings calls) ∨
      128 < t.count.toNat + (mappings calls).length ∧
        Transition.exec arraysCall t calls = .error .outOfBounds := by
  induction calls generalizing t with
  | nil => exact .inl ⟨hcount, .ok ⟨hcount, (List.append_nil _).symm⟩⟩
  | cons c calls ih =>
      cases hc : c.mapping? with
      | none =>
          rw [Transition.exec_cons (arraysCall_none hcount hc), mappings_cons_none hc]
          exact ih hcount
      | some e =>
          obtain ⟨ip, mac⟩ := e
          rw [mappings_cons_some hc, List.length_cons]
          by_cases hroom : t.count.toNat < 128
          · obtain ⟨t', ht', hnext, hentries⟩ := ArpArrays.store_total hroom mac ip
            rw [Transition.exec_cons ((arraysCall_some hc).trans ht'), List.append_cons, ← hentries]
            exact (ih (by omega)).imp (And.imp_left (by omega)) (And.imp_left (by omega))
          · refine .inr ⟨by omega, Except.bind_error ?_⟩
            rw [arraysCall_some hc, ArpArrays.store, dif_neg hroom]

theorem exec_initArp (ips : Vector (BitVec 32) 128) (macs : Vector Mac 128)
    (calls : List ArpCall) :
    ((mappings calls).length ≤ 128 ∧
        (Transition.exec arraysCall (initArp ips macs) calls).Total fun t =>
          t.count.toNat ≤ 128 ∧ t.entries = mappings calls) ∨
      128 < (mappings calls).length ∧
        Transition.exec arraysCall (initArp ips macs) calls = .error .outOfBounds := by
  have hrun := exec_arraysCall (t := initArp ips macs) calls (Nat.zero_le 128)
  rwa [show (initArp ips macs).count.toNat = 0 from rfl, Nat.zero_add] at hrun

end

/-- Nothing keeps the counter from passing the end of the arrays. -/
theorem arp_table_overflow : ¬∀ (ips : Vector (BitVec 32) 128) (macs : Vector Mac 128)
    (calls : List ArpCall), ∃ t, Transition.exec arraysCall (initArp ips macs) calls = .ok t ∧
      t.count.toNat ≤ 128 := by
  intro claim
  have hlength : (mappings (List.replicate 129 (.store 0 0))).length = 129 := rfl
  obtain ⟨t, ht, _⟩ := claim (.replicate 128 0) (.replicate 128 0) (List.replicate 129 (.store 0 0))
  obtain ⟨hle, _⟩ | ⟨_, herror⟩ := exec_initArp (.replicate 128 0) (.replicate 128 0)
    (List.replicate 129 (.store 0 0))
  · omega
  · cases ht.symm.trans herror

/-- The counter stays within 128 and no array is used at an index of 128 or more, which
would be a trap, exactly as long as at most 128 of the calls store a mapping. -/
theorem arp_table_bound (ips : Vector (BitVec 32) 128) (macs : Vector Mac 128)
    (calls : List ArpCall) :
    (∃ t, Transition.exec arraysCall (initArp ips macs) calls = .ok t ∧ t.count.toNat ≤ 128) ↔
      (mappings calls).length ≤ 128 := by
  obtain ⟨hle, t, ht, hcount, _⟩ | ⟨hlt, herror⟩ := exec_initArp ips macs calls
  · exact ⟨fun _ => hle, fun _ => ⟨t, ht, hcount⟩⟩
  · refine ⟨?_, fun hle => absurd hle (by omega)⟩
    rintro ⟨t, ht, _⟩
    cases ht.symm.trans herror

/-- The peer is still reached at the address that it had first. -/
theorem arp_store_stale : ¬∀ (ips : Vector (BitVec 32) 128) (macs : Vector Mac 128)
    (calls : List ArpCall) (t : ArpArrays),
    Transition.exec arraysCall (initArp ips macs) calls = .ok t →
      ∀ ip, t.lookup ip = .ok (firstMapping (mappings calls).reverse ip) := by
  intro claim
  obtain ⟨_, t, ht, hcount, hentries⟩ | ⟨hlt, _⟩ := exec_initArp (.replicate 128 0)
    (.replicate 128 0) [.store 1 7, .store 2 7]
  · have hlookup := claim _ _ _ t ht 7
    rw [ArpArrays.lookup_eq hcount, hentries] at hlookup
    exact absurd (Except.ok.inj hlookup) (by decide)
  · exact absurd hlt (by decide)

/-- As long as the table has room, a lookup succeeds exactly for the addresses that were
stored. It gives the MAC that was stored last exactly if that is the one that was stored
first. -/
theorem arp_last_write (ips : Vector (BitVec 32) 128) (macs : Vector Mac 128)
    (calls : List ArpCall) (room : (mappings calls).length ≤ 128) :
    ∃ t, Transition.exec arraysCall (initArp ips macs) calls = .ok t ∧ ∀ ip,
      ((∃ mac, t.lookup ip = .ok (some mac)) ↔ ∃ mac, (ip, mac) ∈ mappings calls) ∧
        (t.lookup ip = .ok (firstMapping (mappings calls).reverse ip) ↔
          firstMapping (mappings calls) ip = firstMapping (mappings calls).reverse ip) := by
  obtain ⟨_, t, ht, hcount, hentries⟩ | ⟨hlt, _⟩ := exec_initArp ips macs calls
  · refine ⟨t, ht, fun ip => ?_⟩
    rw [ArpArrays.lookup_eq hcount, hentries, Except.ok.injEq, ← firstMapping_isSome_iff]
    exact ⟨exists_congr fun mac => by rw [Except.ok.injEq], Iff.rfl⟩
  · exact absurd room (by omega)

theorem arp_last_write_run : ∃ t : ArpArrays,
    Transition.exec arraysCall (initArp (.replicate 128 0) (.replicate 128 0))
      [.store 1 7, .store 3 8, .store 1 7] = .ok t ∧ t.lookup 7 = .ok (some 1) := by
  obtain ⟨t, ht, h⟩ := arp_last_write (.replicate 128 0) (.replicate 128 0)
    [.store 1 7, .store 3 8, .store 1 7] (by decide)
  exact ⟨t, ht, (h 7).2.mpr (by decide)⟩

end BadOs
