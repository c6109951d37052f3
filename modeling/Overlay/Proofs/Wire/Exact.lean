import Overlay.Proofs.Wire.Field

/-!
# What is read as a message, and what is refused

Armed contents and discovery messages are written in one manner: an octet for the kind, then a payload that runs to
the end, or fields of fixed size.  `Exact` says what this comes to for the reader.  A payload is read from its written
form only; anything else is read wherever its written form stands in front.  Every other byte string is
refused, and the error tells the reason: it is too short, and begins something that can be written; it is of a kind that
there is not; or an address in it is of a family that there is not.  Each error is returned exactly where its
reason holds.

For each of the two it is enough to follow the reader field by field once (`ArmMessage.fault_of_decode`,
`DiscoveryMessage.fault_of_decode`); the rest is the same for both (`Exact.of_faults`).
-/

namespace Overlay

namespace Wire

variable {μ : Type} {tag : μ → UInt8} {encode : μ → Bytes} {decode : Bytes → Except CodecError μ}
  {payload : Bytes → μ} {misaddressed : Bytes → Prop} {b : Bytes} {err : CodecError}

/-- Messages that are read exactly where they were written, and refused for a reason. -/
structure Exact (tag : μ → UInt8) (encode : μ → Bytes) (decode : Bytes → Except CodecError μ) (payload : Bytes → μ)
    (misaddressed : Bytes → Prop) : Prop where
  /-- What was written is read back. -/
  read_back : ∀ m, decode (encode m) = .ok m
  /-- A payload runs to the end. -/
  whole : ∀ b p, decode b = .ok (payload p) ↔ encode (payload p) = b
  /-- What is not a payload is read wherever it stands in front. -/
  front : ∀ b m, (∀ p, m ≠ payload p) → (decode b = .ok m ↔ encode m <+: b)
  /-- What is not read is too short exactly if it is a part of what can be written. -/
  tooShort : ∀ b, (∃ n size, decode b = .error (.tooShort n size)) ↔
    (∀ m, decode b ≠ .ok m) ∧ ∃ m, b <+: encode m ∧ b ≠ encode m
  /-- The error tells the length, and one beyond the end that something with this beginning has. -/
  expected : ∀ b n size, decode b = .error (.tooShort n size) →
    size = b.length ∧ b.length < n ∧ ∃ m, b <+: encode m ∧ n ≤ (encode m).length
  unknown : ∀ b t, decode b = .error (.unknownMessageType t) ↔ b.head? = some t ∧ ∀ m, tag m ≠ t
  invalidAddress : ∀ b, decode b = .error .invalidAddress ↔ misaddressed b
  /-- There is no other error. -/
  refused : ∀ b err, decode b = .error err →
    (∃ n size, err = .tooShort n size) ∨ (∃ t, err = .unknownMessageType t) ∨ err = .invalidAddress

/-- A reason to refuse a byte string. -/
inductive Fault (tag : μ → UInt8) (encode : μ → Bytes) (misaddressed : Bytes → Prop) (b : Bytes) :
    CodecError → Prop where
  | short {err : CodecError} : CutShort encode b.length b err → Fault tag encode misaddressed b err
  | unknown {t : UInt8} : b.head? = some t → (∀ m, tag m ≠ t) → Fault tag encode misaddressed b (.unknownMessageType t)
  | misaddressed : misaddressed b → Fault tag encode misaddressed b .invalidAddress

theorem CutShort.expected (h : CutShort encode b.length b err) : ∃ n, err = .tooShort n b.length ∧ b.length < n ∧
    ∃ m, b <+: encode m ∧ n ≤ (encode m).length := by
  obtain ⟨m, n, hbegins, hlt, hle, rfl⟩ := h
  rw [Nat.sub_self, Nat.zero_add]
  exact ⟨n, rfl, hlt, m, hbegins, hle⟩

theorem Fault.of_tooShort {n size : Nat} (h : Fault tag encode misaddressed b (.tooShort n size)) :
    size = b.length ∧ b.length < n ∧ ∃ m, b <+: encode m ∧ n ≤ (encode m).length := by
  cases h with
  | short hshort =>
    obtain ⟨k, heq, hlt, hm⟩ := hshort.expected
    obtain ⟨rfl, rfl⟩ := CodecError.tooShort.inj heq
    exact ⟨rfl, hlt, hm⟩

theorem Fault.of_unknown {t : UInt8} (h : Fault tag encode misaddressed b (.unknownMessageType t)) :
    b.head? = some t ∧ ∀ m, tag m ≠ t := by
  cases h with
  | short hshort =>
    obtain ⟨_, heq, -⟩ := hshort.expected
    cases heq
  | unknown hhead hforeign => exact ⟨hhead, hforeign⟩

theorem Fault.of_misaddressed (h : Fault tag encode misaddressed b .invalidAddress) : misaddressed b := by
  cases h with
  | short hshort =>
    obtain ⟨_, heq, -⟩ := hshort.expected
    cases heq
  | misaddressed hbad => exact hbad

theorem Fault.kinds (h : Fault tag encode misaddressed b err) :
    (∃ n size, err = .tooShort n size) ∨ (∃ t, err = .unknownMessageType t) ∨ err = .invalidAddress := by
  cases h with
  | short hshort =>
    obtain ⟨n, heq, -⟩ := hshort.expected
    exact .inl ⟨n, b.length, heq⟩
  | unknown => exact .inr (.inl ⟨_, rfl⟩)
  | misaddressed => exact .inr (.inr rfl)

/-- A beginning of something that can be written has a kind, and no wrong address: it can only be too short. -/
theorem Fault.short_of_begins {m : μ} (h : Fault tag encode misaddressed b err) (hbegins : b <+: encode m)
    (htag : (encode m).head? = some (tag m)) (hapart : misaddressed b → ¬ b <+: encode m) :
    ∃ n size, err = .tooShort n size := by
  cases h with
  | short hshort =>
    obtain ⟨n, rfl, -⟩ := hshort.expected
    exact ⟨n, b.length, rfl⟩
  | @unknown t hhead hforeign =>
    obtain ⟨rest, hrest⟩ := hbegins
    have hsame : some (tag m) = some t := by rw [← htag, ← hrest, List.head?_append, hhead, Option.some_or]
    exact absurd (Option.some.inj hsame) (hforeign m)
  | misaddressed hbad => exact absurd hbegins (hapart hbad)

/-- **A reader is exact** if it reads what was written, in front or up to the end, if each of its errors has a reason,
and if the two reasons that are seen from outside lead to their errors. -/
theorem Exact.of_faults (htag : ∀ m, (encode m).head? = some (tag m)) (hback : ∀ m, decode (encode m) = .ok m)
    (happend : ∀ m rest, (∀ p, m ≠ payload p) → decode (encode m ++ rest) = .ok m)
    (hfront : ∀ b m, decode b = .ok m → encode m <+: b)
    (hwhole : ∀ b p, decode b = .ok (payload p) → encode (payload p) = b)
    (hfault : ∀ b err, decode b = .error err → Fault tag encode misaddressed b err)
    (hunknown : ∀ t rest, (∀ m, tag m ≠ t) → decode (t :: rest) = .error (.unknownMessageType t))
    (hinvalid : ∀ b, misaddressed b → decode b = .error .invalidAddress)
    (hapart : ∀ b m, misaddressed b → ¬ b <+: encode m) : Exact tag encode decode payload misaddressed where
  read_back := hback
  whole b p := by
    constructor
    · exact hwhole b p
    · rintro rfl
      exact hback (payload p)
  front b m hm := by
    constructor
    · exact hfront b m
    · rintro ⟨rest, rfl⟩
      exact happend m rest hm
  tooShort b := by
    constructor
    · rintro ⟨n, size, h⟩
      obtain ⟨-, hlt, m, hbegins, hle⟩ := (hfault b _ h).of_tooShort
      refine ⟨fun m hm => ?_, m, hbegins, fun heq => ?_⟩
      · rw [hm] at h
        cases h
      · rw [← heq] at hle
        exact Nat.not_lt.2 hle hlt
    · rintro ⟨hnone, m, hbegins, -⟩
      cases hd : decode b with
      | ok m' => exact absurd hd (hnone m')
      | error err =>
        obtain ⟨n, size, rfl⟩ := (hfault b err hd).short_of_begins hbegins (htag m) (hapart b m)
        exact ⟨n, size, rfl⟩
  expected b n size h := (hfault b _ h).of_tooShort
  unknown b t := by
    constructor
    · exact fun h => (hfault b _ h).of_unknown
    · rintro ⟨hhead, hforeign⟩
      obtain ⟨rest, rfl⟩ := List.head?_eq_some_iff.1 hhead
      exact hunknown t rest hforeign
  invalidAddress b := ⟨fun h => (hfault b _ h).of_misaddressed, hinvalid b⟩
  refused b err h := (hfault b err h).kinds

theorem Fault.of_empty (m : μ) (hm : 0 < (encode m).length) :
    Fault tag encode misaddressed [] (.tooShort 1 0) :=
  .short ⟨m, 1, List.nil_prefix, Nat.one_pos, hm, rfl⟩

end Wire

/-! ### Armed contents -/

namespace ArmMessage

open Wire

variable {b : Bytes} {err : CodecError}

/-- What is read stands in front, and a payload is all there is. -/
theorem eq_of_decode {m : ArmMessage} (h : decode b = .ok m) :
    ∃ rest, b = m.encode ++ rest ∧ ((∃ p, m = .application p) → rest = []) := by
  obtain ⟨⟨t, body⟩, ht, h⟩ := ok_of_bind h
  have hb := readOctet_ok.1 ht
  simp only at h
  split at h
  · rename_i h1
    cases h
    exact ⟨[], by rw [hb, h1, List.append_nil]; rfl, fun _ => rfl⟩
  split at h
  · rename_i h2
    obtain ⟨⟨key, rest⟩, hkey, h⟩ := ok_of_bind h
    cases h
    exact ⟨rest, by rw [hb, h2, readBlock_ok hkey]; rfl, nofun⟩
  split at h
  · rename_i h3
    obtain ⟨⟨id, rest⟩, hid, h⟩ := ok_of_bind h
    cases h
    exact ⟨rest, by rw [hb, h3, readBlock_ok hid]; rfl, nofun⟩
  · cases h

/-- Whatever is refused is refused for a reason. -/
theorem fault_of_decode (h : decode b = .error err) : Fault tag encode (fun _ => False) b err := by
  rcases error_of_bind h with ht | ⟨⟨t, body⟩, ht, h⟩
  · obtain ⟨rfl, rfl⟩ := readOctet_error ht
    exact .of_empty (.application []) (by decide)
  have hb := readOctet_ok.1 ht
  simp only at h
  split at h
  · cases h
  rename_i h1
  split at h
  · rename_i h2
    rcases error_of_bind h with hkey | ⟨_, _, h⟩
    · refine .short (((reads_block 32).error _ _ _ hkey).within [2] (h2 ▸ hb) (Nat.le_refl _) fun key => ?_)
      exact ⟨.keyExchange ⟨key⟩, [], by rw [List.append_nil]; rfl⟩
    · cases h
  rename_i h2
  split at h
  · rename_i h3
    rcases error_of_bind h with hid | ⟨_, _, h⟩
    · refine .short (((reads_block 32).error _ _ _ hid).within [3] (h3 ▸ hb) (Nat.le_refl _) fun id => ?_)
      exact ⟨.acknowledgement ⟨id⟩, [], by rw [List.append_nil]; rfl⟩
    · cases h
  rename_i h3
  cases h
  refine .unknown (by rw [hb]; rfl) fun m => ?_
  cases m with
  | application => exact Ne.symm h1
  | keyExchange => exact Ne.symm h2
  | acknowledgement => exact Ne.symm h3

theorem decode_unknown {t : UInt8} (h : ∀ m, tag m ≠ t) (rest : Bytes) :
    decode (t :: rest) = .error (.unknownMessageType t) := by
  have h1 : ¬ t = 1 := Ne.symm (h (.application []))
  have h2 : ¬ t = 2 := Ne.symm (h (.keyExchange default))
  have h3 : ¬ t = 3 := Ne.symm (h (.acknowledgement ⟨default⟩))
  simp only [decode, readOctet, bind, Except.bind, if_neg h1, if_neg h2, if_neg h3]
  rfl

end ArmMessage

/-! ### Discovery messages -/

namespace DiscoveryMessage

open Wire

variable {b : Bytes} {err : CodecError}

/-- An introduction to a peer at an address of a family that there is not. -/
def Misaddressed (b : Bytes) : Prop :=
  ∃ (peer : PublicKey) (rest : Bytes), b = 0x12 :: (peer.toBytes ++ rest) ∧ NoFamily rest

theorem eq_of_decode {m : DiscoveryMessage} (h : decode b = .ok m) :
    ∃ rest, b = m.encode ++ rest ∧ ((∃ p, m = .application p) → rest = []) := by
  obtain ⟨⟨t, body⟩, ht, h⟩ := ok_of_bind h
  have hb := readOctet_ok.1 ht
  simp only at h
  split at h
  · rename_i hhello
    obtain ⟨⟨time, rest⟩, htime, h⟩ := ok_of_bind h
    obtain ⟨⟨childrenTime, rest'⟩, hchildren, h⟩ := ok_of_bind h
    cases h
    have hbody := (reads_uint64.ok_iff _ body time rest).1 htime
    have hrest := (reads_uint64.ok_iff _ rest childrenTime rest').1 hchildren
    refine ⟨rest', ?_, nofun⟩
    rw [hb, hhello, hbody, hrest, ← List.append_assoc]
    rfl
  split at h
  · rename_i hack
    obtain ⟨⟨time, rest⟩, htime, h⟩ := ok_of_bind h
    cases h
    have hbody := (reads_uint64.ok_iff _ body time rest).1 htime
    refine ⟨rest, ?_, nofun⟩
    rw [hb, hack, hbody]
    rfl
  split at h
  · rename_i hunite
    obtain ⟨⟨peer, rest⟩, hpeer, h⟩ := ok_of_bind h
    obtain ⟨⟨addr, rest'⟩, haddr, h⟩ := ok_of_bind h
    cases h
    have hbody : body = peer.toBytes ++ rest := readBlock_ok hpeer
    have hrest : rest = encodeAddress addr ++ rest' := readAddress_ok haddr
    refine ⟨rest', ?_, nofun⟩
    rw [hb, hunite, hbody, hrest, ← List.append_assoc]
    rfl
  split at h
  · rename_i happlication
    cases h
    exact ⟨[], by rw [hb, happlication, List.append_nil]; rfl, fun _ => rfl⟩
  · cases h

theorem fault_of_decode (h : decode b = .error err) : Fault tag encode Misaddressed b err := by
  rcases error_of_bind h with ht | ⟨⟨t, body⟩, ht, h⟩
  · obtain ⟨rfl, rfl⟩ := readOctet_error ht
    exact .of_empty (.application []) (by decide)
  have hb := readOctet_ok.1 ht
  have hsize := Nat.le_refl b.length
  simp only at h
  split at h
  · rename_i hhello
    rw [hhello] at hb
    rcases error_of_bind h with htime | ⟨⟨time, rest⟩, htime, h⟩
    · refine .short ((reads_uint64.error _ _ _ htime).within [0x10] hb hsize fun time => ?_)
      exact ⟨.hello time 0, bigEndian 8 0, rfl⟩
    rcases error_of_bind h with hchildren | ⟨_, _, h⟩
    · rw [(reads_uint64.ok_iff _ _ _ _).1 htime] at hb
      refine .short ((reads_uint64.error _ _ _ hchildren).within (0x10 :: bigEndian 8 time.toNat) hb hsize fun _ => ?_)
      exact ⟨.hello time _, [], by rw [List.append_nil]; rfl⟩
    · cases h
  rename_i hhello
  split at h
  · rename_i hack
    rw [hack] at hb
    rcases error_of_bind h with htime | ⟨_, _, h⟩
    · refine .short ((reads_uint64.error _ _ _ htime).within [0x11] hb hsize fun time => ?_)
      exact ⟨.acknowledgement time, [], by rw [List.append_nil]; rfl⟩
    · cases h
  rename_i hack
  split at h
  · rename_i hunite
    rw [hunite] at hb
    rcases error_of_bind h with hpeer | ⟨⟨peer, rest⟩, hpeer, h⟩
    · refine .short (((reads_block 32).error _ _ _ hpeer).within [0x12] hb hsize fun peer => ?_)
      exact ⟨.unite ⟨peer⟩ default, encodeAddress default, rfl⟩
    rcases error_of_bind h with haddr | ⟨_, _, h⟩
    · rw [readBlock_ok hpeer] at hb
      have hrest : rest.length ≤ b.length := by
        rw [hb, List.length_cons, List.length_append]
        omega
      rcases readAddress_error hrest haddr with hshort | ⟨hfamily, rfl⟩
      · refine .short (hshort.within (0x12 :: peer.toBytes) hb hsize fun addr => ?_)
        exact ⟨.unite ⟨peer⟩ addr, [], by rw [List.append_nil]; rfl⟩
      · exact .misaddressed ⟨⟨peer⟩, rest, hb, hfamily⟩
    · cases h
  rename_i hunite
  split at h
  · cases h
  rename_i happlication
  cases h
  refine .unknown (by rw [hb]; rfl) fun m => ?_
  cases m with
  | hello => exact Ne.symm hhello
  | acknowledgement => exact Ne.symm hack
  | unite => exact Ne.symm hunite
  | application => exact Ne.symm happlication

theorem decode_unknown {t : UInt8} (h : ∀ m, tag m ≠ t) (rest : Bytes) :
    decode (t :: rest) = .error (.unknownMessageType t) := by
  have hhello : ¬ t = 0x10 := Ne.symm (h (.hello 0 0))
  have hack : ¬ t = 0x11 := Ne.symm (h (.acknowledgement 0))
  have hunite : ¬ t = 0x12 := Ne.symm (h (.unite default default))
  have happlication : ¬ t = 0x13 := Ne.symm (h (.application []))
  simp only [decode, readOctet, bind, Except.bind, if_neg hhello, if_neg hack, if_neg hunite, if_neg happlication]
  rfl

theorem decode_misaddressed (h : Misaddressed b) : decode b = .error .invalidAddress := by
  obtain ⟨peer, rest, rfl, hfamily⟩ := h
  have hhello : ¬ (0x12 : UInt8) = 0x10 := by decide
  have hack : ¬ (0x12 : UInt8) = 0x11 := by decide
  simp only [decode, readOctet, bind, Except.bind, if_neg hhello, if_neg hack, if_true, PublicKey.toBytes,
    readBlock_append, readAddress_noFamily hfamily]

theorem not_prefix_of_misaddressed (h : Misaddressed b) (m : DiscoveryMessage) : ¬ b <+: m.encode := by
  obtain ⟨peer, rest, rfl, hfamily⟩ := h
  intro hbegins
  obtain ⟨htag, hbody⟩ := List.cons_prefix_cons.1 hbegins
  cases m with
  | unite peer' addr =>
    obtain ⟨tail, htail⟩ := hbody
    have hlength : peer.toBytes.length = peer'.toBytes.length :=
      peer.block.length_toBytes.trans peer'.block.length_toBytes.symm
    rw [List.append_assoc] at htail
    have haddr := (List.append_inj htail hlength).2
    exact not_prefix_of_noFamily hfamily addr ⟨tail, haddr⟩
  | hello | acknowledgement | application => cases htag

end DiscoveryMessage

/-- **Armed contents and discovery messages are read exactly where they were written.**  A written message is read back.
A payload is read from its written form only, and any other message exactly where its written form stands in front.
Every other byte string is refused: as too short exactly if it is a proper beginning of something that can be
written, and then the length that the error asks for is beyond the end; as of an unknown kind exactly if its first octet
is the tag of no message; and as wrongly addressed exactly if it begins an introduction to an address of a family that
there is not, which armed contents never are. -/
theorem messages_exact :
    Wire.Exact ArmMessage.tag ArmMessage.encode ArmMessage.decode .application (fun _ => False) ∧
      Wire.Exact DiscoveryMessage.tag DiscoveryMessage.encode DiscoveryMessage.decode .application
        DiscoveryMessage.Misaddressed := by
  constructor
  · refine .of_faults (fun _ => rfl) ArmMessage.decode_encode (fun m rest hm => ArmMessage.decode_append hm rest) ?_ ?_
      (fun _ _ => ArmMessage.fault_of_decode) (fun _ rest h => ArmMessage.decode_unknown h rest) nofun nofun
    · intro b m h
      obtain ⟨rest, rfl, -⟩ := ArmMessage.eq_of_decode h
      exact List.prefix_append _ _
    · intro b p h
      obtain ⟨rest, rfl, hrest⟩ := ArmMessage.eq_of_decode h
      rw [hrest ⟨p, rfl⟩, List.append_nil]
  · refine .of_faults (fun _ => rfl) DiscoveryMessage.decode_encode
      (fun m rest hm => DiscoveryMessage.decode_append hm rest) ?_ ?_ (fun _ _ => DiscoveryMessage.fault_of_decode)
      (fun _ rest h => DiscoveryMessage.decode_unknown h rest) (fun _ => DiscoveryMessage.decode_misaddressed)
      fun _ m h => DiscoveryMessage.not_prefix_of_misaddressed h m
    · intro b m h
      obtain ⟨rest, rfl, -⟩ := DiscoveryMessage.eq_of_decode h
      exact List.prefix_append _ _
    · intro b p h
      obtain ⟨rest, rfl, hrest⟩ := DiscoveryMessage.eq_of_decode h
      rw [hrest ⟨p, rfl⟩, List.append_nil]

end Overlay
