import Overlay.Proofs.Engine.Found
import Overlay.Proofs.Session.Plain

/-!
# The long-time path

Whatever has happened to an engine, its session with a peer rests on the long-time agreement of the two
identities (`rests_resolve`), which both ends compute alike from opposite sides, and a message that goes by its
name is opened with it before anything else is tried (`disarmInbound_longTime`).  So what one end encrypts
under the long-time agreement, the other end opens, whatever either of them has been through
(`opens_longTime`).

The name alone is not enough.  An active agreement may go by the long-time name as well (`Session.Shadowed`), and
is then used in its place, with other keys.  This takes an end that has drawn the other end's long-time key for a
new one (`unread_longTime`).
-/

namespace Overlay

namespace Session

/-- The long-time agreement of a session is the one between our identity and the peer. -/
def Rests (S : Suite) (own : KeyPair) (peer : PublicKey) (s : Session) : Prop :=
  ∃ b, Agreement.bondWith S own peer = .ok b ∧ s.longTimeId = b.id ∧ s.longTimePair = b.pair

/-- The active agreement goes by the name of the long-time agreement. -/
def Shadowed (s : Session) : Prop := s.active.bind (·.id) = some s.longTimeId

instance (s : Session) : Decidable s.Shadowed := inferInstanceAs (Decidable (_ = _))

end Session

/-- A message under the long-time agreement of its sender with a peer. -/
def Missive (S : Suite) (sender : KeyPair) (peer : PublicKey) (content : ArmMessage) (m : ArmedMessage) : Prop :=
  ∃ b, Agreement.bondWith S sender peer = .ok b ∧ m.agreementId = b.id ∧
    S.encrypt b.pair.tx m.nonce (associatedData sender.publicKey peer b.id) content.encode = some m.ciphertext

/-- A missive goes by the name of the recipient's long-time agreement with its sender, which opens it. -/
theorem Missive.mirrored {S : Suite} (hC : S.Commutes) (hO : S.Opens) {a b : SecretKey} {content : ArmMessage}
    {m : ArmedMessage} (h : Missive S (S.keyPair a) (S.publicOf b) content m) :
    ∃ g, Agreement.bondWith S (S.keyPair b) (S.publicOf a) = .ok g ∧ m.agreementId = g.id ∧ ∀ config now,
      Turn.openMessage ⟨S, config, S.keyPair b, S.publicOf a, now⟩ g.pair m = .ok content := by
  obtain ⟨g, hg, hname, hsealed⟩ := h
  refine ⟨_, bondWith_swap (hC a b) hg, hname, ?_⟩
  intro config now
  apply Turn.openMessage_sealed hO
  rw [hname]
  exact hsealed

theorem Missive.opens {S : Suite} (hC : S.Commutes) (hO : S.Opens) {a b : SecretKey} {content : ArmMessage}
    {m : ArmedMessage} (h : Missive S (S.keyPair a) (S.publicOf b) content m) {s : Session}
    (hs : s.Rests S (S.keyPair b) (S.publicOf a)) (config : ArmConfig) (now : Nat) : m.agreementId = s.longTimeId ∧
      Turn.openMessage ⟨S, config, S.keyPair b, S.publicOf a, now⟩ s.longTimePair m = .ok content := by
  obtain ⟨g, hg, hname, hopen⟩ := h.mirrored hC hO
  obtain ⟨g', hg', hid, hpair⟩ := hs
  cases hg.symm.trans hg'
  rw [hid, hpair]
  exact ⟨hname, hopen config now⟩

theorem Engine.rests_freshSession {S : Suite} {e : Engine} {p : PublicKey} {s : Session}
    (hs : e.freshSession S p = .ok s) : s.Rests S e.identity p := by
  obtain ⟨b, hb, rfl⟩ := freshSession_ok hs
  exact ⟨b, hb, rfl, rfl⟩

namespace Turn

variable {x : Context} {t : Turn} {m : ArmedMessage} {payload : Bytes}

theorem Moves.rests {h : Hearing} {t' : Turn} {S : Suite} {own : KeyPair} {peer : PublicKey} (hm : Moves x h t t')
    (ht : t.session.Rests S own peer) : t'.session.Rests S own peer := by
  obtain ⟨b, hb, hid, hpair⟩ := ht
  exact ⟨b, hb, hm.longTime.1.trans hid, hm.longTime.2.trans hpair⟩

/-- What is sent under the long-time name is sent under the long-time agreement, unless the active agreement
has that name too. -/
theorem sealed_longTime (h : (t.armOutbound x payload).1 = .ok m)
    (hid : m.agreementId = t.session.longTimeId) (hs : ¬ t.session.Shadowed) :
    Sealed x t.session.longTimeId t.session.longTimePair (.application payload) m := by
  simp only [armOutbound, session_deferIf] at h
  cases hb : activeBond x t.session with
  | some bond =>
    simp only [hb] at h
    obtain ⟨g, hg, hgb⟩ := Option.bind_eq_some_iff.1 hb
    have hactive : t.session.active = some g := (Option.filter_eq_some_iff.1 hg).1
    have hname : g.id = some t.session.longTimeId := by
      rw [Agreement.id, hgb, Option.map_some, ← (sealMessage_ok h).name, hid]
    exact absurd (by rw [Session.Shadowed, hactive]; exact hname) hs
  | none =>
    simp only [hb, sealLongTime, session_deferIf] at h
    exact sealMessage_ok h

/-- A payload that opens with the long-time agreement is handed out, whatever else the session holds. -/
theorem disarmInbound_longTime (hid : m.agreementId = t.session.longTimeId)
    (ho : openMessage x t.session.longTimePair m = .ok (.application payload)) :
    (t.disarmInbound x m).1 = .ok (.application payload) := congrArg Prod.fst (disarmInbound_payload hid ho)

end Turn

namespace Endpoint

open Engine

variable {S : Suite} {now : Nat} {w : Endpoint} {p : PublicKey} {s : Session}

/-- **Every session of a run rests on the long-time agreement** with its peer, and so does every session that is
found or started after it. -/
theorem rests_resolve (S : Suite) (identity : KeyPair) (config : ArmConfig) (entropy : Entropy)
    (ops : List (Nat × Operation))
    (hs : (((start identity config entropy).run S ops).engine.resolve S now p).1 = .ok s) :
    s.Rests S identity p := by
  have hsound := sound_run (S := S) (sound_start identity config entropy) ops
  exact sessions_finds S identity config entropy ops (Q := fun p s => s.Rests S identity p)
    (fun _ _ hs => rests_freshSession hs) (fun _ _ _ _ _ hm ht => hm.rests ht) ((resolve_found S now p hsound).1 s hs).1

/-- **The long-time path never gets out of step.**  Two engines have been through any operations whatever.  If
one of them encrypts a payload for the other under the name of their long-time agreement, and its active agreement
does not go by that name, then the other one opens the message, provided that it finds its session or starts one. -/
theorem opens_longTime (hC : S.Commutes) (hO : S.Opens) (a b : SecretKey) (config config' : ArmConfig)
    (entropy entropy' : Entropy) (past past' : List (Nat × Operation)) (now now' : Nat) (v w : Endpoint)
    (s s' : Session) (payload : Bytes) (m : ArmedMessage)
    (hv : v = (start (S.keyPair a) config entropy).run S past)
    (hw : w = (start (S.keyPair b) config' entropy').run S past')
    (hm : (v.engine.armOutbound S now (S.publicOf b) payload v.entropy).1 = .ok m)
    (hid : S.agreementId (S.publicOf a) (S.publicOf b) = .ok m.agreementId)
    (hs : (v.engine.resolve S now (S.publicOf b)).1 = .ok s) (hclear : ¬ s.Shadowed)
    (hs' : (w.engine.resolve S now' (S.publicOf a)).1 = .ok s') :
    (w.engine.disarmInbound S now' (S.publicOf a) m w.entropy).1 = .ok (.application payload) := by
  subst hv hw
  have hstart := sound_start (S.keyPair a) config entropy
  have hstart' := sound_start (S.keyPair b) config' entropy'
  have hidentity := identity_run (S := S) hstart past
  have hidentity' := identity_run (S := S) hstart' past'
  obtain ⟨bond, hbond, hlong, hpair⟩ := rests_resolve S _ _ _ past hs
  obtain ⟨bond', hbond', hlong', hpair'⟩ := rests_resolve S _ _ _ past' hs'
  obtain ⟨hname, hswap⟩ := bond_mirror hC hbond hbond'
  have hnamed : m.agreementId = bond.id := Except.ok.inj (hid.symm.trans (bondWith_ok hbond).2.1)
  generalize hv : (start (S.keyPair a) config entropy).run S past = v at *
  generalize hw : (start (S.keyPair b) config' entropy').run S past' = w at *
  have hsound : v.engine.sessions.Sound := hv ▸ sound_run hstart past
  have hsound' : w.engine.sessions.Sound := hw ▸ sound_run hstart' past'
  -- What the sender sealed.
  have harm := (congrArg Prod.fst (converse_ok hs (fun x t => t.armOutbound x payload) _)).symm.trans hm
  have hsealed := Turn.sealed_longTime harm (hnamed.trans hlong.symm) hclear
  -- What the recipient opens it with.
  have hopen : Turn.openMessage (w.engine.context S now' (S.publicOf a)) s'.longTimePair m =
      .ok (.application payload) := by
    refine Turn.openMessage_mirrored hO hsealed rfl (congrArg (·.publicKey) hidentity)
      (congrArg (·.publicKey) hidentity').symm ?_
    rw [hpair, hpair', hswap]
    rfl
  have hdisarm := Turn.disarmInbound_longTime (t := { session := s', entropy := w.entropy })
    (hnamed.trans (hname.symm.trans hlong'.symm)) hopen
  exact (congrArg Prod.fst (converse_ok hs' (fun x t => t.disarmInbound x m) _)).trans hdisarm

/-- The newcomer, with sessions that may be idle for longer than agreements last. -/
def veteran : Endpoint :=
  (start (Textbook.suite.keyPair ⟨Textbook.remainder 5⟩) { sessionExpireAfter := .ofSeconds 1000 }
    (Textbook.counting 11)).run Textbook.suite acquaintance

/-- The partner, which has offered a key, and has had a message from the newcomer. -/
def host (m : ArmedMessage) : Endpoint :=
  (start (Textbook.suite.keyPair ⟨Textbook.remainder 7⟩) {} (Textbook.counting 50)).run Textbook.suite
    [(1, .doKeyExchange newcomer.engine.address), (400001, .disarmInbound newcomer.engine.address m)]

/-- A payload that is encrypted when the agreement with the partner is stale, and is delivered twice. -/
theorem opens_longTime_stale :
    (veteran.engine.armOutbound Textbook.suite 400000 partner [8] veteran.entropy).1.toOption.map (fun m =>
      ((host m).engine.disarmInbound Textbook.suite 400002 newcomer.engine.address m (host m).entropy).1) =
        some (.ok (.application [8])) := by
  have harmed : (veteran.engine.armOutbound Textbook.suite 400000 partner [8]
      veteran.entropy).1.toOption.isSome := by decide +kernel
  have hclear : (veteran.engine.resolve Textbook.suite 400000 partner).1.toOption.any (¬ ·.Shadowed) := by
    decide +kernel
  have hnamed : (veteran.engine.armOutbound Textbook.suite 400000 partner [8]
      veteran.entropy).1.toOption.all fun m =>
        Textbook.suite.agreementId (Textbook.suite.publicOf ⟨Textbook.remainder 5⟩)
          (Textbook.suite.publicOf ⟨Textbook.remainder 7⟩) = .ok m.agreementId := by decide +kernel
  have hfound : (veteran.engine.armOutbound Textbook.suite 400000 partner [8]
      veteran.entropy).1.toOption.all fun m =>
        ((host m).engine.resolve Textbook.suite 400002 newcomer.engine.address).1.toOption.isSome := by
    decide +kernel
  obtain ⟨m, hm⟩ := Option.isSome_iff_exists.1 harmed
  rw [hm, Option.all_some] at hnamed hfound
  rw [hm, Option.map_some]
  obtain ⟨s, hs, hopen⟩ := (Option.any_eq_true _ _).1 hclear
  obtain ⟨s', hs'⟩ := Option.isSome_iff_exists.1 hfound
  have hread := opens_longTime Textbook.suite_commutes Textbook.suite_opens ⟨Textbook.remainder 5⟩
    ⟨Textbook.remainder 7⟩ { sessionExpireAfter := .ofSeconds 1000 } {} (Textbook.counting 11)
    (Textbook.counting 50) acquaintance [(1, .doKeyExchange newcomer.engine.address),
      (400001, .disarmInbound newcomer.engine.address m)] 400000 400002 veteran (host m) s s' [8] m rfl rfl
    (ok_of_mem (Option.mem_toList.2 hm)) (of_decide_eq_true hnamed) (ok_of_mem (Option.mem_toList.2 hs))
    (of_decide_eq_true hopen) (ok_of_mem (Option.mem_toList.2 hs'))
  exact congrArg some hread

def double : PublicKey := Textbook.suite.publicOf ⟨Textbook.remainder 11⟩

/-- The newcomer offers its key, and is offered its own long-time key in return. -/
def masquerade : List (Nat × Operation) :=
  [(1, .doKeyExchange double), (2, .receivedKeyExchange double newcomer.engine.address),
    (3, .receivedAck double
      ((Textbook.suite.agreementId newcomer.engine.address double).toOption.getD default))]

/-- **The name alone is not enough.**  The newcomer has drawn the long-time key of its peer and has taken the
agreement with it for a new one.  What it sends goes by the long-time name, and the peer finds its session, but
cannot decrypt it. -/
theorem unread_longTime :
    let v := newcomer.run Textbook.suite masquerade
    let w := start (Textbook.suite.keyPair ⟨Textbook.remainder 11⟩) {} (Textbook.counting 50)
    (v.engine.armOutbound Textbook.suite 4 double [8] v.entropy).1.toOption.any fun m =>
      Textbook.suite.agreementId newcomer.engine.address double = .ok m.agreementId ∧
        (w.engine.resolve Textbook.suite 5 newcomer.engine.address).1.toOption.isSome ∧
          (w.engine.disarmInbound Textbook.suite 5 newcomer.engine.address m w.entropy).1 =
            .error (.crypto .decryptionFailed) := by
  decide +kernel

end Endpoint

end Overlay
