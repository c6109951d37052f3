import Overlay.Proofs.Discovery.Relay
import Overlay.Proofs.Engine.Reach
import Overlay.Proofs.Session.Opener
import Overlay.Proofs.Wire.Exact

/-!
# Application data through relays

A payload is written as a discovery message, encrypted by the engine of its sender, put into an envelope, handed from
super peer to super peer, taken out by its recipient, decrypted and read.  All of this together gives back the payload
(`relayed_delivered`), for as many relays as they allow, where the recipient's session answers the name of the agreement
with the keys that encrypted (`Session.opener?`).

The octets arrive in any case.  The recipient reads them exactly if its settings let it: its sessions must not expire at
once (`ArmConfig.Lasting`), and where the agreement is the one that it negotiates, it must keep agreements at all
(`ArmConfig.Keeps`).  Both fail for a bound of less than a millisecond.
-/

namespace Overlay

namespace Turn

variable {x : Context} {t : Turn} {m : ArmedMessage} {payload : Bytes}

def sealer (x : Context) (s : Session) : SessionPair :=
  match activeBond x s with
  | some bond => bond.pair
  | none => s.longTimePair

theorem armOutbound_sealer (h : (t.armOutbound x payload).1 = .ok m) :
    Sealed x m.agreementId (sealer x t.session) (.application payload) m := by
  simp only [armOutbound, session_deferIf] at h
  unfold sealer
  cases hb : activeBond x t.session with
  | some bond =>
    rw [hb] at h
    have hsealed := sealMessage_ok h
    exact hsealed.name ▸ hsealed
  | none =>
    simp only [hb, sealLongTime, session_deferIf] at h
    have hsealed := sealMessage_ok h
    exact hsealed.name ▸ hsealed

end Turn

namespace Endpoint

open Engine SuperPeerSide

variable {S : Suite}

/-- The sessions that are found after a run keep agreements within the bounds that the settings give. -/
theorem furnished_finds (S : Suite) (identity : KeyPair) (config : ArmConfig) (entropy : Entropy)
    (ops : List (Nat × Operation)) {now : Nat} {p : PublicKey} {s : Session}
    (hs : ((start identity config entropy).run S ops).engine.Finds S now p s) : s.Furnished config := by
  refine sessions_finds S identity config entropy ops (Q := fun _ s => s.Furnished config) ?_
    (fun _ _ _ _ _ hm ht => hm.furnished ht) hs
  intro p s hs
  obtain ⟨b, -, rfl⟩ := freshSession_ok hs
  exact ⟨Cache.sound_empty _ _ _, rfl⟩

/-- What a node reads from the octets of an envelope: it is taken out, decrypted and handled as a message from its
sender, and what is handed out is read. -/
def read (S : Suite) (now : Nat) (w : Endpoint) (b : Bytes) : Option DiscoveryMessage :=
  match Envelope.decode b with
  | .error _ => none
  | .ok e =>
    match (w.engine.disarmInbound S now e.sender e.armed w.entropy).1 with
    | .ok (.application payload) => (DiscoveryMessage.decode payload).toOption
    | _ => none

theorem read_encode {w : Endpoint} {now : Nat} {e : Envelope} {payload : Bytes} (hsize : 16 ≤ e.armed.ciphertext.length) :
    w.read S now e.encode = some (.application payload) ↔
      (w.engine.disarmInbound S now e.sender e.armed w.entropy).1 =
        .ok (.application (DiscoveryMessage.application payload).encode) := by
  simp only [read, Envelope.decode_encode hsize]
  cases (w.engine.disarmInbound S now e.sender e.armed w.entropy).1 with
  | error err => exact iff_of_false nofun nofun
  | ok d =>
    cases d with
    | consumed => exact iff_of_false nofun nofun
    | application b =>
      simp only [Except.ok.injEq, Disarmed.application.injEq]
      constructor
      · intro h
        cases hd : DiscoveryMessage.decode b with
        | error err =>
          rw [hd] at h
          cases h
        | ok message =>
          rw [hd] at h
          cases h
          obtain ⟨rest, rfl, hrest⟩ := DiscoveryMessage.eq_of_decode hd
          rw [hrest ⟨payload, rfl⟩, List.append_nil]
      · rintro rfl
        rw [DiscoveryMessage.decode_encode]
        rfl

theorem armed_sealer {v : Endpoint} {now : Nat} {p : PublicKey} {s : Session} {payload : Bytes} {m : ArmedMessage}
    (hs : (v.engine.resolve S now p).1 = .ok s) (hm : (v.engine.armOutbound S now p payload v.entropy).1 = .ok m) :
    Sealed (v.engine.context S now p) m.agreementId (Turn.sealer (v.engine.context S now p) s) (.application payload)
      m :=
  Turn.armOutbound_sealer ((congrArg Prod.fst (converse_ok hs (fun x t => t.armOutbound x payload) _)).symm.trans hm)

/-- **What one end encrypts, the other end hands out**, whatever either of them has been through, if its session answers
the name of the agreement with the keys that encrypted: exactly if its sessions do not expire at once, and it keeps
agreements where the one that it negotiates is asked for. -/
theorem disarmInbound_armed (hO : S.Opens) (a b : KeyPair) (config config' : ArmConfig) (entropy entropy' : Entropy)
    (past past' : List (Nat × Operation)) (now now' : Nat) (v w : Endpoint) (s s' : Session) (pair : SessionPair)
    (payload : Bytes) (m : ArmedMessage) (hv : v = (start a config entropy).run S past)
    (hw : w = (start b config' entropy').run S past')
    (hm : (v.engine.armOutbound S now b.publicKey payload v.entropy).1 = .ok m)
    (hs : (v.engine.resolve S now b.publicKey).1 = .ok s) (hs' : w.engine.Finds S now' a.publicKey s')
    (hopener : s'.opener? now' m.agreementId = some pair)
    (hmirror : pair.rx = (Turn.sealer (v.engine.context S now b.publicKey) s).tx) :
    (w.engine.disarmInbound S now' a.publicKey m w.entropy).1 = .ok (.application payload) ↔
      config'.Lasting ∧ (s'.Awaits m.agreementId now' → config'.Keeps) := by
  have hsealed := armed_sealer hs hm
  subst hv hw
  have hidentity := identity_run (S := S) (sound_start a config entropy) past
  have hidentity' := identity_run (S := S) (sound_start b config' entropy') past'
  have hsound' := sound_run (S := S) (sound_start b config' entropy') past'
  have httl := congrArg (·.2.1) (bounds_run (S := S) (sound_start b config' entropy') past')
  have hfurnished := furnished_finds S b config' entropy' past' hs'
  generalize (start a config entropy).run S past = v at *
  generalize (start b config' entropy').run S past' = w at *
  have hfound := resolve_finds hsound' hs'
  rw [config'.lasting_iff, ← show w.engine.sessions.ttl = config'.sessionExpireAfter.bound? from httl]
  split at hfound
  · rename_i hmomentary
    have hrefused := congrArg Prod.fst (converse_error hfound (fun x t => t.disarmInbound x m) w.entropy)
    exact iff_of_false (fun hread => by cases hread.symm.trans hrefused) fun h => h.1 hmomentary
  · rename_i hlasts
    rw [disarmInbound, converse_ok hfound, and_iff_right hlasts]
    refine ⟨?_, fun hkeeps => Turn.disarmInbound_opener hfurnished hopener hkeeps ?_⟩
    · intro hread hawaits
      by_contra hkeeps
      cases hread.symm.trans (Turn.disarmInbound_unkept (x := w.engine.context S now' a.publicKey)
        (t := { session := s', entropy := w.entropy }) hfurnished hawaits hkeeps)
    · exact Turn.openMessage_mirrored hO hsealed rfl (congrArg (·.publicKey) hidentity)
        (congrArg (·.publicKey) hidentity').symm hmirror

/-- **Application data crosses relays unharmed.**  Whatever its sender and its recipient have been through, a payload
that is encrypted and put into an envelope is forwarded by every one of as many super peers as they allow, with nothing
but the count of relays changed, and a further super peer drops it.  The recipient, whose session answers the name of the
agreement, reads the payload exactly if its sessions do not expire at once and it keeps agreements where the one that it
negotiates is asked for.  No super peer forwards what has taken as many relays as it allows, so no chain is longer than
that, and the count never wraps. -/
theorem relayed_delivered (hO : S.Opens) (hT : S.Tags) (a b : KeyPair) (config config' : ArmConfig)
    (entropy entropy' : Entropy) (past past' : List (Nat × Operation)) (now now' : Nat) (v w : Endpoint) (s s' : Session)
    (pair : SessionPair) (network : Int32) (payload : Bytes) (m : ArmedMessage) (e : Envelope) (limit : UInt8)
    (relays : List (SuperPeerSide × Nat)) (hv : v = (start a config entropy).run S past)
    (hw : w = (start b config' entropy').run S past')
    (hm : (v.engine.armOutbound S now b.publicKey (DiscoveryMessage.application payload).encode v.entropy).1 = .ok m)
    (he : e = ⟨network, 0, a.publicKey, b.publicKey, m⟩)
    (hs : (v.engine.resolve S now b.publicKey).1 = .ok s) (hs' : w.engine.Finds S now' a.publicKey s')
    (hopener : s'.opener? now' m.agreementId = some pair)
    (hmirror : pair.rx = (Turn.sealer (v.engine.context S now b.publicKey) s).tx)
    (hserve : ∀ r ∈ relays, r.1.Serves limit b.publicKey) (hlength : relays.length ≤ limit.toNat) :
    (∀ k (hk : k < relays.length), ∃ child, relays[k].1.children.get? b.publicKey = some child ∧
        relays[k].1.answer relays[k].2 (e.encode.set 8 (UInt8.ofNat k)) =
          .ok (.forward child.addr (e.relayed (k + 1)))) ∧
      forwarded relays e.encode = some (e.encode.set 8 (UInt8.ofNat relays.length)) ∧
      (w.read S now' (e.encode.set 8 (UInt8.ofNat relays.length)) = some (.application payload) ↔
        config'.Lasting ∧ (s'.Awaits m.agreementId now' → config'.Keeps)) ∧
      (∀ (r : SuperPeerSide) (t : Nat), r.config.hopLimit = limit → b.publicKey ≠ r.own →
        relays.length = limit.toNat → r.answer t (e.encode.set 8 (UInt8.ofNat relays.length)) = .ok .drop) ∧
      (∀ (r : SuperPeerSide) (t : Nat) (g : Envelope), r.config.hopLimit ≤ g.hopCount → g.recipient ≠ r.own →
        (r.relay t g).1 = .drop) ∧
      (∀ (chain : List (SuperPeerSide × Nat)) (first last : Bytes), (∀ r ∈ chain, r.1.config.hopLimit ≤ limit) →
        forwarded chain first = some last → chain.length ≤ limit.toNat) ∧
      ∀ (r : SuperPeerSide) (t : Nat) (g g' : Envelope) (addr : Address), (r.relay t g).1 = .forward addr g' →
        g'.hopCount.toNat = g.hopCount.toNat + 1 := by
  have hdisarm := disarmInbound_armed hO a b config config' entropy entropy' past past' now now' v w s s' pair _ m hv hw hm
    hs hs' hopener hmirror
  have hsize : 16 ≤ m.ciphertext.length := hT _ _ _ _ _ (armed_sealer hs hm).encrypted
  have hfirst : e.relayed 0 = e := by rw [he]; rfl
  have hrecipient : e.recipient = b.publicKey := by rw [he]
  have hserve' : ∀ r ∈ relays, r.1.Serves limit e.recipient := hrecipient ▸ hserve
  have hsize' : 16 ≤ e.armed.ciphertext.length := by rw [he]; exact hsize
  have hcrossed := forwarded_encode hsize' hserve' 0 (by omega)
  rw [hfirst, Nat.zero_add] at hcrossed
  simp only [← Envelope.encode_relayed]
  refine ⟨?_, hcrossed, ?_, ?_, fun r t g hspent hown => relay_spent hown hspent,
    fun chain first last hlimit h => length_le_of_forwarded hlimit h, fun r t g g' addr h => (relay_counts h).1⟩
  · intro k hk
    rw [← hrecipient]
    exact answer_relayed hsize' (hserve' _ (List.getElem_mem hk)) k (by omega) _
  · rw [read_encode (e := e.relayed relays.length) hsize', he]
    exact hdisarm
  · intro r t hlimit hown hfull
    rw [answer_encode (e := e.relayed relays.length) hsize']
    refine congrArg Except.ok (relay_spent (hrecipient ▸ hown) ?_)
    show r.config.hopLimit ≤ UInt8.ofNat relays.length
    rw [hlimit, hfull, UInt8.ofNat_toNat]
    exact UInt8.le_refl _

def acquainted : Endpoint := newcomer.run Textbook.suite acquaintance

/-- The partner, which has been offered the newcomer's key, and awaits a sign that the newcomer has its own. -/
def expectant (config : ArmConfig) : Endpoint :=
  (start (Textbook.suite.keyPair ⟨Textbook.remainder 7⟩) config (Textbook.counting 13)).run Textbook.suite
    [(1, .receivedKeyExchange newcomer.engine.address (Textbook.suite.publicOf ⟨Textbook.remainder 11⟩))]

/-- A super peer that has the partner for its child, and allows two relays. -/
def ferry (secret : Nat) : SuperPeerSide :=
  { SuperPeerSide.start (Textbook.suite.publicOf ⟨Textbook.remainder secret⟩) { hopLimit := 2 } with
    children := Table.empty.insert partner ⟨⟨.v4 (Block.filled 4 7), 22527⟩, 0⟩ }

theorem serves_ferry (secret : Nat) (h : partner ≠ Textbook.suite.publicOf ⟨Textbook.remainder secret⟩) :
    (ferry secret).Serves 2 partner :=
  ⟨rfl, h, _, (Table.get?_insert Table.empty partner partner _).trans (if_pos rfl)⟩

/-- A payload that crosses two super peers, and arrives before the acknowledgement of its agreement, is read.  It is not
by a partner that keeps agreements for half a millisecond, though its session answers with the same keys. -/
theorem relayed_delivered_early :
    let brief : ArmConfig := { expireAfter := .ofNanos 500000, retryInterval := .zero }
    ∃ m, (acquainted.engine.armOutbound Textbook.suite 3 partner (DiscoveryMessage.application [8]).encode
        acquainted.entropy).1 = .ok m ∧
      ∃ b, forwarded [(ferry 17, 4), (ferry 19, 5)] (⟨1, 0, newcomer.engine.address, partner, m⟩ : Envelope).encode =
          some b ∧
        (expectant {}).read Textbook.suite 6 b = some (.application [8]) ∧
        (expectant brief).read Textbook.suite 6 b ≠ some (.application [8]) := by
  intro brief
  have hanswers : (acquainted.engine.armOutbound Textbook.suite 3 partner
      (DiscoveryMessage.application [8]).encode acquainted.entropy).1.toOption.any fun m =>
        (acquainted.engine.resolve Textbook.suite 3 partner).1.toOption.any fun s =>
          [{}, brief].all fun config => ((expectant config).engine.session newcomer.engine.address 6).any fun s' =>
            s'.Awaits m.agreementId 6 ∧ (s'.opener? 6 m.agreementId).any fun pair =>
              pair.rx = (Turn.sealer (acquainted.engine.context Textbook.suite 3 partner) s).tx := by decide +kernel
  obtain ⟨m, hm, hanswers⟩ := (Option.any_eq_true _ _).1 hanswers
  obtain ⟨s, hs, hanswers⟩ := (Option.any_eq_true _ _).1 hanswers
  have hserve : ∀ r ∈ [(ferry 17, 4), (ferry 19, 5)], r.1.Serves 2 partner := by
    intro r hr
    rcases List.mem_cons.1 hr with rfl | hr
    · exact serves_ferry 17 (by decide +kernel)
    · obtain rfl := List.mem_singleton.1 hr
      exact serves_ferry 19 (by decide +kernel)
  -- The partner's settings decide whether it reads what arrives.
  have hcrosses : ∀ config ∈ [{}, brief], ∃ b, forwarded [(ferry 17, 4), (ferry 19, 5)]
      (⟨1, 0, newcomer.engine.address, partner, m⟩ : Envelope).encode = some b ∧
      ((expectant config).read Textbook.suite 6 b = some (.application [8]) ↔ config.Lasting ∧ config.Keeps) := by
    intro config hconfig
    obtain ⟨s', hs', hanswer⟩ := (Option.any_eq_true _ _).1 (List.all_eq_true.1 hanswers config hconfig)
    obtain ⟨hawaits, hanswer⟩ := of_decide_eq_true hanswer
    obtain ⟨pair, hopener, hmirror⟩ := (Option.any_eq_true _ _).1 hanswer
    obtain ⟨-, hcrossed, hread, -⟩ := relayed_delivered Textbook.suite_opens Textbook.suite_tags
      (Textbook.suite.keyPair ⟨Textbook.remainder 5⟩) (Textbook.suite.keyPair ⟨Textbook.remainder 7⟩) {} config
      (Textbook.counting 11) (Textbook.counting 13) acquaintance
      [(1, .receivedKeyExchange newcomer.engine.address (Textbook.suite.publicOf ⟨Textbook.remainder 11⟩))] 3 6
      acquainted (expectant config) s s' pair 1 [8] m ⟨1, 0, newcomer.engine.address, partner, m⟩ 2
      [(ferry 17, 4), (ferry 19, 5)] rfl rfl (ok_of_mem (Option.mem_toList.2 hm)) rfl
      (ok_of_mem (Option.mem_toList.2 hs)) (Or.inl hs') hopener (of_decide_eq_true hmirror) hserve (by decide)
    exact ⟨_, hcrossed, hread.trans (and_congr_right fun _ => ⟨fun h => h hawaits, fun h _ => h⟩)⟩
  obtain ⟨b, hb, hread⟩ := hcrosses {} List.mem_cons_self
  obtain ⟨b', hb', hunread⟩ := hcrosses brief (List.mem_cons_of_mem _ List.mem_cons_self)
  cases hb.symm.trans hb'
  refine ⟨m, ok_of_mem (Option.mem_toList.2 hm), b, hb, hread.2 ⟨.inr (by decide), by decide⟩, fun h => ?_⟩
  exact absurd (hunread.1 h).2 (by decide)

end Endpoint

end Overlay
