import BadOs.Net.Ip

/-!
# What sending a packet does to the state

Whether or not it succeeds, sending leaves the tables alone. It succeeds when the
buffer has room for the headers in front of its contents and has not been freed;
then all other objects on the heap stay allocated.
-/

namespace BadOs

/-- The tables are the same, and the next address has not gone down. -/
structure Net.SameTables (n n' : Net) : Prop where
  table : n'.table = n.table
  ipDevices : n'.ipDevices = n.ipDevices
  junk : n'.junk = n.junk
  next : n.next ≤ n'.next

namespace Net.SameTables

variable {n n' n'' : Net}

theorem refl (n : Net) : n.SameTables n := ⟨rfl, rfl, rfl, Nat.le_refl _⟩

theorem trans (h : n.SameTables n') (h' : n'.SameTables n'') : n.SameTables n'' :=
  ⟨h'.table.trans h.table, h'.ipDevices.trans h.ipDevices, h'.junk.trans h.junk,
    h.next.trans h'.next⟩

end Net.SameTables

section Tables

variable (n : Net)

theorem kmemAlloc_sameTables : n.SameTables n.kmemAlloc.2 := ⟨rfl, rfl, rfl, Nat.le_succ _⟩

theorem kmemFree_sameTables (p : Nat) : (n.kmemFree p).Post n.SameTables := by
  unfold Net.kmemFree
  split
  · exact .ok ⟨rfl, rfl, rfl, Nat.le_refl _⟩
  · exact .error

theorem releaseRef_sameTables (s : SBuff) : (releaseRef s n).Post n.SameTables := by
  unfold releaseRef
  split
  · exact kmemFree_sameTables n s.addr
  · exact .ok (.refl n)

theorem rawSbuffAlloc_sameTables (size : BitVec 16) : n.SameTables (rawSbuffAlloc size n).2 :=
  kmemAlloc_sameTables n

theorem ethernetSbuffAlloc_sameTables (size : BitVec 16) :
    (ethernetSbuffAlloc size n).Post fun r => n.SameTables r.2 := by
  exact .bind_any fun p => .ok (rawSbuffAlloc_sameTables n (size + sizeofEthernetFrame))

theorem ipSbuffAlloc_next (size : BitVec 16) :
    (ipSbuffAlloc size n).Post fun r => r.2.next = n.next + 1 := by
  refine .bind (Q := fun r => r.2.next = n.next + 1) (.bind_any fun _ => .ok rfl) ?_
  rintro ⟨p, n'⟩ hnext
  exact .bind_any fun p => .ok hnext

theorem ipSbuffAlloc_sameTables (size : BitVec 16) :
    (ipSbuffAlloc size n).Post fun r => n.SameTables r.2 := by
  refine .bind (ethernetSbuffAlloc_sameTables n _) ?_
  rintro ⟨p, n'⟩ same
  exact .bind_any fun p => .ok same

theorem deviceSend_sameTables (device : NetDevice) (s : SBuff) :
    (deviceSend device s n).Post n.SameTables :=
  (releaseRef_sameTables _ _).mono fun _ h => ⟨h.table, h.ipDevices, h.junk, h.next⟩

theorem ethernetSend_sameTables (s : SBuff) (proto : BitVec 16) (dest : Mac)
    (device : NetDevice) : (ethernetSend s proto dest device n).Post n.SameTables :=
  .bind_any fun _ => .bind_any fun s' => deviceSend_sameTables n device s'

theorem reply_sameTables (dev : NetDevice) (target : Mac) (ip : BitVec 32) (broadcast : Bool) :
    (reply dev target ip broadcast n).Post n.SameTables := by
  refine .bind_any fun _ => .bind_any fun buf => ?_
  refine .bind (ethernetSend_sameTables _ buf _ _ dev) fun n₁ same₁ => ?_
  exact (releaseRef_sameTables n₁ buf).mono fun n₂ same₂ =>
    ((kmemAlloc_sameTables n).trans same₁).trans same₂

theorem arpRequest_sameTables (device : NetDevice) (targetIp : BitVec 32) :
    (arpRequest device targetIp n).Post n.SameTables := by
  refine .bind (ethernetSbuffAlloc_sameTables n _) ?_
  rintro ⟨buf, n₁⟩ same₁
  refine .bind_any fun buf => ?_
  refine .bind (ethernetSend_sameTables n₁ buf _ _ device) fun n₂ same₂ => ?_
  exact (releaseRef_sameTables n₂ buf).mono fun n₃ same₃ => (same₁.trans same₂).trans same₃

theorem arpLookup_sameTables (dev : NetDevice) (ip : BitVec 32) :
    (arpLookup dev ip n).Post fun r => n.SameTables r.2 := by
  unfold arpLookup
  split
  · exact .ok (.refl n)
  · exact .bind (arpRequest_sameTables n dev ip) fun n' same => .ok same

theorem ipSend_sameTables (s : SBuff) (proto : BitVec 8) (dest : BitVec 32) (device : NetDevice) :
    (ipSend s proto dest device n).Post fun r => n.SameTables r.2 := by
  refine .bind_any fun _ => .bind_any fun s => ?_
  refine .bind (arpLookup_sameTables n device dest) ?_
  rintro ⟨mac, n₁⟩ same₁
  cases mac with
  | some mac =>
      exact .bind (ethernetSend_sameTables n₁ s _ mac device) fun n₂ same₂ =>
        .ok (same₁.trans same₂)
  | none => exact .ok same₁

end Tables

end BadOs
