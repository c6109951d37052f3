import Overlay.Proofs.Wire.RoundTrip

/-!
# What the reader of a field can do

A reader either takes off the front exactly what was written there, or the octets are too few (`Reads`).  In that case
they begin something that can be written, and the error tells a length beyond the end of the message
(`CutShort`); so no octet is looked for where there is none.  A field that is cut short cuts the message
around it short (`CutShort.within`), which carries the statement from fields to messages.

Only an address can be wrong in another way: its first octet may name no family (`readAddress_error`).
-/

namespace Overlay

namespace Wire

variable {α β ε : Type} {n size : Nat} {b rest rest' : Bytes} {err : CodecError}

/-- A reader that goes on after another one fails where one of them does. -/
theorem error_of_bind {x : Except ε α} {f : α → Except ε β} {fault : ε} (h : x >>= f = .error fault) :
    x = .error fault ∨ ∃ a, x = .ok a ∧ f a = .error fault := by
  cases x with
  | error _ =>
    cases h
    exact .inl rfl
  | ok a => exact .inr ⟨a, rfl, h⟩

/-- What is left of a message of some size begins a written form that is longer, and the error tells a length that the
message does not have and that the written form does not need more than. -/
def CutShort (write : α → Bytes) (size : Nat) (rest : Bytes) (err : CodecError) : Prop :=
  ∃ a n, rest <+: write a ∧ rest.length < n ∧ n ≤ (write a).length ∧ err = .tooShort (size - rest.length + n) size

theorem CutShort.within {write : α → Bytes} {write' : β → Bytes} (h : CutShort write size rest err) (pre : Bytes)
    (hb : b = pre ++ rest) (hsize : b.length ≤ size)
    (hwrite : ∀ a, ∃ m post, write' m = pre ++ (write a ++ post)) : CutShort write' size b err := by
  obtain ⟨a, n, hbegins, hlt, hle, rfl⟩ := h
  obtain ⟨m, post, hm⟩ := hwrite a
  subst hb
  rw [List.length_append] at hsize
  refine ⟨m, pre.length + n, ?_, ?_, ?_, ?_⟩
  · rw [hm]
    exact List.prefix_append_right_inj pre |>.2 (hbegins.trans (List.prefix_append _ _))
  · rw [List.length_append]
    omega
  · rw [hm, List.length_append, List.length_append]
    omega
  · rw [List.length_append]
    congr 1
    omega

/-- A reader of what a writer writes: it takes that off the front, and fails only where it is cut short. -/
structure Reads (read : Nat → Bytes → Except CodecError (α × Bytes)) (write : α → Bytes) : Prop where
  ok_iff : ∀ size rest a rest', read size rest = .ok (a, rest') ↔ rest = write a ++ rest'
  error : ∀ size rest err, read size rest = .error err → CutShort write size rest err

theorem readOctet_ok {x : UInt8} : readOctet size rest = .ok (x, rest') ↔ rest = x :: rest' := by
  cases rest with
  | nil => exact ⟨nofun, nofun⟩
  | cons y tail => simp [readOctet]

theorem readOctet_error (h : readOctet size rest = .error err) : rest = [] ∧ err = .tooShort (size + 1) size := by
  cases rest with
  | nil =>
    cases h
    exact ⟨rfl, rfl⟩
  | cons y tail => cases h

theorem prefix_block (h : rest.length ≤ n) : ∃ x : Block n, rest <+: x.toBytes := by
  have hlength : (rest ++ List.replicate (n - rest.length) 0).length = n := by
    rw [List.length_append, List.length_replicate]
    omega
  refine ⟨Block.ofBytes _ hlength, ?_⟩
  rw [Block.toBytes_ofBytes]
  exact List.prefix_append _ _

theorem reads_block (n : Nat) : Reads (readBlock n) Block.toBytes where
  ok_iff size rest x rest' := by
    constructor
    · exact readBlock_ok
    · rintro rfl
      exact readBlock_append size x rest'
  error size rest err h := by
    unfold readBlock at h
    split at h
    · cases h
    rename_i hshort
    cases h
    obtain ⟨x, hx⟩ := prefix_block (Nat.le_of_not_le hshort)
    exact ⟨x, n, hx, Nat.lt_of_not_le hshort, Nat.le_of_eq x.length_toBytes.symm, rfl⟩

/-! ### Numbers -/

/-- The octets of a block spell a number, and it spells them again. -/
theorem bigEndian_of_block {ofNat : Nat → α} {toNat : α → Nat} (hto : ∀ k < 256 ^ n, toNat (ofNat k) = k)
    (x : Block n) : bigEndian n (toNat (ofNat (ofBigEndian x.toBytes))) = x.toBytes := by
  have hlt := ofBigEndian_lt x.toBytes
  have hspelled := bigEndian_ofBigEndian x.toBytes
  rw [x.length_toBytes] at hlt hspelled
  rw [hto _ hlt, hspelled]

/-- A number is read as the block that spells it, whatever type has exactly the numbers of so many octets. -/
theorem reads_number (width : Nat) {ofNat : Nat → α} {toNat : α → Nat} (hlt : ∀ x, toNat x < 256 ^ width)
    (hof : ∀ x, ofNat (toNat x) = x) (hto : ∀ k < 256 ^ width, toNat (ofNat k) = k) :
    Reads (fun size rest => do
      let (x, rest) ← readBlock width size rest
      return (ofNat (ofBigEndian x.toBytes), rest)) fun x => bigEndian width (toNat x) where
  ok_iff size rest x rest' := by
    constructor
    · intro h
      obtain ⟨⟨y, tail⟩, hy, h⟩ := ok_of_bind h
      cases h
      rw [bigEndian_of_block hto]
      exact readBlock_ok hy
    · rintro rfl
      simp only [readBlock_bigEndian, bind, Except.bind, toBytes_ofBE, ofBigEndian_bigEndian (hlt x), hof]
      rfl
  error size rest err h := by
    rcases error_of_bind h with hblock | ⟨_, _, hpure⟩
    · obtain ⟨y, k, hbegins, hshort, hle, rfl⟩ := (reads_block width).error size rest err hblock
      refine ⟨ofNat (ofBigEndian y.toBytes), k, ?_, hshort, ?_, rfl⟩
      · show rest <+: bigEndian width _
        rwa [bigEndian_of_block hto]
      · show k ≤ (bigEndian width _).length
        rwa [bigEndian_of_block hto]
    · cases hpure

theorem reads_uint16 : Reads readUInt16 fun x => bigEndian 2 x.toNat :=
  reads_number 2 UInt16.toNat_lt (fun _ => UInt16.ofNat_toNat) fun _ => UInt16.toNat_ofNat_of_lt'

theorem reads_uint32 : Reads readUInt32 fun x => bigEndian 4 x.toNat :=
  reads_number 4 UInt32.toNat_lt (fun _ => UInt32.ofNat_toNat) fun _ => UInt32.toNat_ofNat_of_lt'

theorem reads_uint64 : Reads readUInt64 fun x => bigEndian 8 x.toNat :=
  reads_number 8 UInt64.toNat_lt (fun _ => UInt64.ofNat_toNat) fun _ => UInt64.toNat_ofNat_of_lt'

/-! ### Addresses -/

def NoFamily (rest : Bytes) : Prop := ∃ family tail, rest = family :: tail ∧ family ≠ 4 ∧ family ≠ 6

def encodeHost : Host → Bytes
  | .v4 octets => [4] ++ octets.toBytes
  | .v6 octets => [6] ++ octets.toBytes

theorem encodeAddress_eq (a : Address) : encodeAddress a = encodeHost a.host ++ (bigEndian 2 a.port.toNat ++ []) := by
  rw [List.append_nil]
  obtain ⟨host, port⟩ := a
  cases host <;> rfl

theorem readHost_ok {host : Host} (h : readHost size rest = .ok (host, rest')) : rest = encodeHost host ++ rest' := by
  obtain ⟨⟨family, octets⟩, hfamily, h⟩ := ok_of_bind h
  have hrest := readOctet_ok.1 hfamily
  simp only at h
  split at h
  · rename_i hv4
    obtain ⟨⟨x, tail⟩, hx, h⟩ := ok_of_bind h
    cases h
    rw [hrest, readBlock_ok hx, hv4]
    rfl
  split at h
  · rename_i hv6
    obtain ⟨⟨x, tail⟩, hx, h⟩ := ok_of_bind h
    cases h
    rw [hrest, readBlock_ok hx, hv6]
    rfl
  · cases h

theorem readHost_error (hsize : rest.length ≤ size) (h : readHost size rest = .error err) :
    CutShort encodeHost size rest err ∨ (NoFamily rest ∧ err = .invalidAddress) := by
  rcases error_of_bind h with hfamily | ⟨⟨family, octets⟩, hfamily, h⟩
  · obtain ⟨rfl, rfl⟩ := readOctet_error hfamily
    exact .inl ⟨.v4 default, 1, List.nil_prefix, Nat.one_pos, by simp [encodeHost], rfl⟩
  have hrest := readOctet_ok.1 hfamily
  simp only at h
  split at h
  · rename_i hv4
    rcases error_of_bind h with hblock | ⟨_, _, h⟩
    · refine .inl (((reads_block 4).error _ _ _ hblock).within [4] (hv4 ▸ hrest) hsize fun x => ?_)
      exact ⟨.v4 x, [], by simp [encodeHost]⟩
    · cases h
  split at h
  · rename_i hv6
    rcases error_of_bind h with hblock | ⟨_, _, h⟩
    · refine .inl (((reads_block 16).error _ _ _ hblock).within [6] (hv6 ▸ hrest) hsize fun x => ?_)
      exact ⟨.v6 x, [], by simp [encodeHost]⟩
    · cases h
  · rename_i hv4 hv6
    cases h
    exact .inr ⟨⟨family, octets, hrest, hv4, hv6⟩, rfl⟩

theorem readAddress_ok {a : Address} (h : readAddress size rest = .ok (a, rest')) :
    rest = encodeAddress a ++ rest' := by
  obtain ⟨⟨host, tail⟩, hhost, h⟩ := ok_of_bind h
  obtain ⟨⟨port, tail'⟩, hport, h⟩ := ok_of_bind h
  cases h
  obtain rfl := (reads_uint16.ok_iff _ _ _ _).1 hport
  rw [readHost_ok hhost, encodeAddress_eq, List.append_nil, List.append_assoc]

theorem readAddress_error (hsize : rest.length ≤ size) (h : readAddress size rest = .error err) :
    CutShort encodeAddress size rest err ∨ (NoFamily rest ∧ err = .invalidAddress) := by
  rcases error_of_bind h with hhost | ⟨⟨host, tail⟩, hhost, h⟩
  · refine (readHost_error hsize hhost).imp_left fun hshort => ?_
    exact hshort.within [] rfl hsize fun x => ⟨⟨x, 0⟩, _, encodeAddress_eq ⟨x, 0⟩⟩
  rcases error_of_bind h with hport | ⟨_, _, h⟩
  · refine .inl ((reads_uint16.error _ _ _ hport).within (encodeHost host) (readHost_ok hhost) hsize fun port => ?_)
    exact ⟨⟨host, port⟩, [], encodeAddress_eq ⟨host, port⟩⟩
  · cases h

theorem not_prefix_of_noFamily (h : NoFamily rest) (a : Address) : ¬ rest <+: encodeAddress a := by
  obtain ⟨family, tail, rfl, hv4, hv6⟩ := h
  obtain ⟨host, port⟩ := a
  intro hbegins
  cases host with
  | v4 octets => exact hv4 (List.cons_prefix_cons.1 hbegins).1
  | v6 octets => exact hv6 (List.cons_prefix_cons.1 hbegins).1

theorem readAddress_noFamily (h : NoFamily rest) : readAddress size rest = .error .invalidAddress := by
  obtain ⟨family, tail, rfl, hv4, hv6⟩ := h
  simp only [readAddress, readHost, readOctet, bind, Except.bind, if_neg hv4, if_neg hv6]
  rfl

end Wire

end Overlay
