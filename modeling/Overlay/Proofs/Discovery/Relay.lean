import Overlay.Discovery.SuperPeerSide
import Overlay.Proofs.Wire.RoundTrip

/-!
# Chains of relays

An envelope may be handed from one super peer to the next.  Each of them reads the octets, decides
(`SuperPeerSide.answer`), and writes what it forwards.  Super peers that serve the recipient forward the envelope as
long as it has not taken as many relays as they allow, and all that changes on the way is the count of relays
(`forwarded_encode`).  Whoever is handed an envelope that has taken that many drops it (`relay_spent`).  So the count
goes up by one with every relay and never passes the limit (`relay_counts`), and no chain is longer than the limit
(`length_le_of_forwarded`).
-/

namespace Overlay

def Envelope.relayed (e : Envelope) (hops : Nat) : Envelope := { e with hopCount := UInt8.ofNat hops }

theorem Envelope.encode_relayed (e : Envelope) (hops : Nat) :
    (e.relayed hops).encode = e.encode.set 8 (UInt8.ofNat hops) := e.encode_hopCount (UInt8.ofNat hops)

namespace SuperPeerSide

variable {s : SuperPeerSide} {e e' : Envelope} {now : Nat} {addr : Address} {limit : UInt8} {b b' : Bytes}
  {relays : List (SuperPeerSide × Nat)}

/-- What a super peer decides when it is handed the octets of an envelope. -/
def answer (s : SuperPeerSide) (now : Nat) (b : Bytes) : Except CodecError RelayDecision :=
  (Envelope.decode b).map fun e => (s.relay now e).1

def sendsOn (s : SuperPeerSide) (now : Nat) (b : Bytes) : Option Bytes :=
  match s.answer now b with
  | .ok (.forward _ e) => some e.encode
  | _ => none

/-- What the last of some super peers sends on, if each of them, at its moment, forwards what it is handed. -/
def forwarded : List (SuperPeerSide × Nat) → Bytes → Option Bytes
  | [], b => some b
  | (s, now) :: rest, b => (s.sendsOn now b).bind (forwarded rest)

/-- A super peer that has a node for its child, and allows a number of relays. -/
structure Serves (limit : UInt8) (recipient : PublicKey) (s : SuperPeerSide) : Prop where
  limited : s.config.hopLimit = limit
  other : recipient ≠ s.own
  registered : ∃ child, s.children.get? recipient = some child

/-! ### One relay -/

theorem relay_child {child : Child} (hown : e.recipient ≠ s.own) (hchild : s.children.get? e.recipient = some child)
    (hhops : e.hopCount < s.config.hopLimit) :
    (s.relay now e).1 = .forward child.addr { e with hopCount := e.hopCount + 1 } := by
  simp only [relay, if_neg hown, hchild, if_neg (UInt8.not_le.2 hhops)]

theorem relay_spent (hown : e.recipient ≠ s.own) (hhops : s.config.hopLimit ≤ e.hopCount) :
    (s.relay now e).1 = .drop := by
  simp only [relay, if_neg hown]
  cases s.children.get? e.recipient with
  | none => rfl
  | some child => simp only [if_pos hhops]

theorem relay_forward (h : (s.relay now e).1 = .forward addr e') :
    e.hopCount < s.config.hopLimit ∧ e' = { e with hopCount := e.hopCount + 1 } := by
  unfold relay at h
  split at h
  · cases h
  · cases hc : s.children.get? e.recipient with
    | none =>
      rw [hc] at h
      cases h
    | some child =>
      rw [hc] at h
      simp only at h
      split at h
      · cases h
      · cases h
        exact ⟨UInt8.not_le.1 (by assumption), rfl⟩

theorem relay_counts (h : (s.relay now e).1 = .forward addr e') :
    e'.hopCount.toNat = e.hopCount.toNat + 1 ∧ e'.hopCount.toNat ≤ s.config.hopLimit.toNat := by
  obtain ⟨hlt, rfl⟩ := relay_forward h
  have hlt' := UInt8.lt_iff_toNat_lt.1 hlt
  have hlimit := s.config.hopLimit.toNat_lt
  have hnext : (e.hopCount + 1).toNat = e.hopCount.toNat + 1 := by
    rw [UInt8.toNat_add, UInt8.toNat_one, Nat.mod_eq_of_lt (by omega)]
  exact ⟨hnext, by rw [hnext]; omega⟩

/-! ### A chain -/

theorem sendsOn_eq_some (h : s.sendsOn now b = some b') : ∃ e addr e',
    Envelope.decode b = .ok e ∧ (s.relay now e).1 = .forward addr e' ∧ b' = e'.encode := by
  unfold sendsOn at h
  split at h
  · rename_i addr e' hanswer
    unfold answer at hanswer
    cases hd : Envelope.decode b with
    | error err =>
      rw [hd] at hanswer
      cases hanswer
    | ok e =>
      rw [hd] at hanswer
      exact ⟨e, addr, e', rfl, Except.ok.inj hanswer, (Option.some.inj h).symm⟩
  · cases h

theorem answer_encode (hsize : 16 ≤ e.armed.ciphertext.length) (s : SuperPeerSide) (now : Nat) :
    s.answer now e.encode = .ok (s.relay now e).1 := by
  rw [answer, Envelope.decode_encode hsize]
  rfl

theorem answer_relayed (hsize : 16 ≤ e.armed.ciphertext.length) (hs : s.Serves limit e.recipient) (hops : Nat)
    (hhops : hops < limit.toNat) (now : Nat) : ∃ child, s.children.get? e.recipient = some child ∧
      s.answer now (e.relayed hops).encode = .ok (.forward child.addr (e.relayed (hops + 1))) := by
  obtain ⟨child, hchild⟩ := hs.registered
  have hlimit := limit.toNat_lt
  have hcount : (e.relayed hops).hopCount < s.config.hopLimit := by
    rw [UInt8.lt_iff_toNat_lt, hs.limited]
    show (UInt8.ofNat hops).toNat < limit.toNat
    rw [UInt8.toNat_ofNat', Nat.mod_eq_of_lt (by omega)]
    exact hhops
  have hnext : UInt8.ofNat hops + 1 = UInt8.ofNat (hops + 1) := by
    rw [UInt8.ofNat_add]
    rfl
  refine ⟨child, hchild, ?_⟩
  rw [answer_encode (e := e.relayed hops) hsize, relay_child (e := e.relayed hops) hs.other hchild hcount]
  show Except.ok (RelayDecision.forward child.addr { e with hopCount := UInt8.ofNat hops + 1 }) = _
  rw [hnext]
  rfl

/-- **Super peers that serve the recipient forward an envelope**, and only count it, as long as each of them allows one
relay more. -/
theorem forwarded_encode (hsize : 16 ≤ e.armed.ciphertext.length)
    (hserve : ∀ r ∈ relays, r.1.Serves limit e.recipient) (hops : Nat) (hhops : hops + relays.length ≤ limit.toNat) :
    forwarded relays (e.relayed hops).encode = some (e.relayed (hops + relays.length)).encode := by
  induction relays generalizing hops with
  | nil => rfl
  | cons r rest ih =>
    rw [List.length_cons] at hhops
    obtain ⟨child, -, hanswer⟩ := answer_relayed hsize (hserve r List.mem_cons_self) hops (by omega) r.2
    have hsends : r.1.sendsOn r.2 (e.relayed hops).encode = some (e.relayed (hops + 1)).encode := by
      rw [sendsOn, hanswer]
    have hrest := ih (fun r' hr => hserve r' (List.mem_cons_of_mem _ hr)) (hops + 1) (by omega)
    rw [forwarded, hsends, Option.bind_some, hrest, List.length_cons, Nat.add_assoc, Nat.add_comm 1]

/-- What a chain forwards had taken few enough relays before. -/
theorem hopCount_of_forwarded (hlimit : ∀ r ∈ relays, r.1.config.hopLimit ≤ limit) (hne : relays ≠ [])
    (hd : Envelope.decode b = .ok e) (h : forwarded relays b = some b') :
    e.hopCount.toNat + relays.length ≤ limit.toNat := by
  induction relays generalizing b e with
  | nil => exact absurd rfl hne
  | cons r rest ih =>
    obtain ⟨b₁, hsends, hrest⟩ := Option.bind_eq_some_iff.1 h
    obtain ⟨e₀, addr, e₁, hd₀, hrelay, rfl⟩ := sendsOn_eq_some hsends
    obtain rfl : e₀ = e := Except.ok.inj (hd₀.symm.trans hd)
    obtain ⟨hcount, hallowed⟩ := relay_counts hrelay
    have hle := UInt8.le_iff_toNat_le.1 (hlimit r List.mem_cons_self)
    rw [List.length_cons]
    by_cases hnil : rest = []
    · subst hnil
      simp only [List.length_nil]
      omega
    · have hsize : 16 ≤ e₁.armed.ciphertext.length := by
        have htag := Envelope.tag_of_decode hd
        rw [(relay_forward hrelay).2]
        exact htag
      have hlater := ih (fun r' hr => hlimit r' (List.mem_cons_of_mem _ hr)) hnil (Envelope.decode_encode hsize) hrest
      omega

/-- **No chain of relays is longer than what each of its super peers allows.** -/
theorem length_le_of_forwarded (hlimit : ∀ r ∈ relays, r.1.config.hopLimit ≤ limit)
    (h : forwarded relays b = some b') : relays.length ≤ limit.toNat := by
  cases relays with
  | nil => exact Nat.zero_le _
  | cons r rest =>
    obtain ⟨b₁, hsends, -⟩ := Option.bind_eq_some_iff.1 h
    obtain ⟨e, -, -, hd, -⟩ := sendsOn_eq_some hsends
    have hcount := hopCount_of_forwarded hlimit (List.cons_ne_nil r rest) hd h
    omega

end SuperPeerSide

end Overlay
