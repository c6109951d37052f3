import Mathlib.Data.List.Infix
import Overlay.Proofs.Agreement.Basic
import Overlay.Proofs.Conversation.Basic
import Overlay.Proofs.Crypto.Textbook
import Overlay.Proofs.Engine.Known
import Overlay.Proofs.Wire.ArmMessage

/-!
# Agreements are mutual

Whatever one end of a conversation has promoted, the other end held before, with the same name and the same
session keys, seen from there (`mirrored_run`).  The network may lose, repeat, delay and reorder messages, and
hand each of them to either end.

The proof looks back at the whole run.  Every message ever sent was spoken by one of the ends (`Spoken`): it is
sealed for the other end; a key in it was drawn by its speaker; an agreement that it acknowledges was held by
its speaker; and it travels under the long-time agreement or under one that both ends held.  An end that hears
only such messages learns only keys that the other end drew and agreements that the other end held before
(`Lore`, `sane_run`).  The two ends of one agreement then have the same two keys, and mirror each other
(`mirror`).

That they do takes sources of randomness of their own: no two keys were each drawn at both ends (`Apart`).  Ends that
have drawn the same two keys may both bond their second one with the other end's first one.  The name is the same then,
but so are the session keys, where those of one end should be swapped (`unmirrored_twins`).
-/

namespace Overlay

namespace Conversation

/-! ### Looking back -/

/-- The session of an end with the other one, expired or not. -/
def session (c : Conversation) (a : Side) : Option Session := (c.ends a).engine.held (c.address a.other)

/-- An end holds an agreement of a name: under negotiation, active, or for decryption. -/
def Holds (c : Conversation) (a : Side) (id : AgreementId) : Prop :=
  ∃ s g, c.session a = some s ∧ s.Has g ∧ g.id = some id

variable (S : Suite) (c : Conversation) (acts : List (Nat × Action))

def HeldBefore (a : Side) (id : AgreementId) : Prop :=
  ∃ past act rest, acts = past ++ act :: rest ∧ (c.run S past).Holds a id

/-- An end holds an agreement of a name, or held it at some earlier point of a run. -/
def HeldEver (a : Side) (id : AgreementId) : Prop :=
  HeldBefore S c acts a id ∨ (c.run S acts).Holds a id

def Drew (a : Side) (key : PublicKey) : Prop :=
  ∃ p, ((c.run S acts).ends a).entropy.Drew S (c.ends a).entropy.secretsDrawn p ∧ p.publicKey = key

def Drawn (key : PublicKey) : Prop := ∃ a, Drew S c acts a key

/-- What an end can know of the other one. -/
def lore (a : Side) : Lore where
  first := (c.ends a).entropy.secretsDrawn
  theirs := Drew S c acts a.other
  names := HeldBefore S c acts a.other

/-- A message that an end may have sent. -/
structure Spoken (a : Side) (m : ArmedMessage) : Prop where
  sealed : ∃ (key : SessionKey) (content : ArmMessage), S.encrypt key m.nonce
      (associatedData (c.address a) (c.address a.other) m.agreementId) content.encode = some m.ciphertext ∧
    (∀ k, content = .keyExchange k → Drew S c acts a k) ∧
    ∀ id, content = .acknowledgement id → HeldEver S c acts a id
  name : S.agreementId (c.address a) (c.address a.other) = .ok m.agreementId ∨
    ∀ b, HeldEver S c acts b m.agreementId

/-- Both ends know only what they drew and what is true of the other one, and every message was spoken. -/
structure Sane : Prop where
  identity : ∀ a, ((c.run S acts).ends a).engine.identity = (c.ends a).engine.identity
  ends : ∀ a, ((c.run S acts).ends a).Known S (c.address a.other) (lore S c acts a) (Spoken S c acts a)
  sent : ∀ m ∈ (c.run S acts).sent, ∃ a, Spoken S c acts a m

/-- No two keys were each drawn at both ends. -/
def Apart : Prop := ∀ k k', (∀ a, Drew S c acts a k) → (∀ a, Drew S c acts a k') → k = k'

/-- The name of an agreement between keys drawn in a run tells the two keys. -/
def NoCollision : Prop := ∀ k₁ k₂ k₁' k₂' id,
  Drawn S c acts k₁ → Drawn S c acts k₂ → Drawn S c acts k₁' → Drawn S c acts k₂' →
  S.agreementId k₁ k₂ = .ok id → S.agreementId k₁' k₂' = .ok id →
    (k₁ = k₁' ∧ k₂ = k₂') ∨ (k₁ = k₂' ∧ k₂ = k₁')

variable {S c acts} {now : Nat} {act : Action} {a b : Side} {id : AgreementId} {key : PublicKey}
  {m : ArmedMessage}

theorem HeldEver.before (h : HeldEver S c acts a id) : HeldBefore S c (acts ++ [(now, act)]) a id := by
  rcases h with ⟨past, act', rest, hacts, hpast⟩ | hnow
  · exact ⟨past, act', rest ++ [(now, act)], by rw [hacts, List.append_assoc]; rfl, hpast⟩
  · exact ⟨acts, (now, act), [], rfl, hnow⟩

theorem HeldEver.concat (h : HeldEver S c acts a id) : HeldEver S c (acts ++ [(now, act)]) a id :=
  Or.inl h.before

theorem entropy_act (now : Nat) (act : Action) (hs : ∀ a, (c.ends a).engine.sessions.Sound) (a : Side) :
    ((c.act S now act).ends a).engine.identity = (c.ends a).engine.identity ∧
      ((c.act S now act).ends a).entropy.secretAt = (c.ends a).entropy.secretAt ∧
      (c.ends a).entropy.secretsDrawn ≤ ((c.act S now act).ends a).entropy.secretsDrawn := by
  refine ends_act_keeps (P := fun a w => w.engine.identity = (c.ends a).engine.identity ∧
    w.entropy.secretAt = (c.ends a).entropy.secretAt ∧
    (c.ends a).entropy.secretsDrawn ≤ w.entropy.secretsDrawn) (fun _ => ⟨rfl, rfl, Nat.le_refl _⟩) ?_ a
  intro op _
  have hcourse := op.course S now (hs act.side)
  exact ⟨hcourse.identity, hcourse.entropy⟩

theorem Drew.concat (h : Drew S c acts a key)
    (hs : ∀ a, ((c.run S acts).ends a).engine.sessions.Sound) :
    Drew S c (acts ++ [(now, act)]) a key := by
  obtain ⟨p, hp, hkey⟩ := h
  obtain ⟨-, hsecret, hdrawn⟩ := entropy_act (S := S) now act hs a
  rw [Drew, run_concat]
  exact ⟨p, hp.mono hsecret hdrawn, hkey⟩

theorem Spoken.concat (h : Spoken S c acts a m)
    (hs : ∀ a, ((c.run S acts).ends a).engine.sessions.Sound) :
    Spoken S c (acts ++ [(now, act)]) a m := by
  obtain ⟨⟨key, content, hsealed, hkey, hname⟩, hid⟩ := h
  exact ⟨⟨key, content, hsealed, fun k hk => (hkey k hk).concat hs, fun id hc => (hname id hc).concat⟩,
    hid.imp_right fun hboth b => (hboth b).concat⟩

theorem spoken_offer (hid : ((c.run S acts).ends a).engine.identity = (c.ends a).engine.identity)
    (h : (lore S c acts a).Offers S ((c.run S acts).ends a).engine.identity (c.address a.other)
      ((c.run S acts).ends a).entropy m) : Spoken S c acts a m := by
  obtain ⟨key, p, hp, hid', hm⟩ := h
  rw [hid] at hid' hm
  refine ⟨⟨key, .keyExchange p.publicKey, hm, ?_, nofun⟩, Or.inl hid'⟩
  intro k hk
  cases hk
  exact ⟨p, hp, rfl⟩

/-- What is sealed for the other end is spoken, if what it tells is true. -/
theorem spoken_sealed {x : Context} {pair : SessionPair} {content : ArmMessage} (hsuite : x.suite = S)
    (hown : x.own.publicKey = c.address a) (hpeer : x.peer = c.address a.other)
    (hm : Sealed x id pair content m) (hkey : ∀ k, content = .keyExchange k → Drew S c acts a k)
    (hname : ∀ id, content = .acknowledgement id → HeldEver S c acts a id)
    (hid : S.agreementId (c.address a) (c.address a.other) = .ok id ∨ ∀ b, HeldEver S c acts b id) :
    Spoken S c acts a m := by
  obtain ⟨rfl, hsealed⟩ := hm
  rw [hsuite, hown, hpeer] at hsealed
  exact ⟨⟨pair.tx, content, hsealed, hkey, hname⟩, hid⟩

/-- What can be opened at an end was said by the other one. -/
theorem speaker (hS : S.Binds) (hne : c.address a ≠ c.address a.other) {x : Context} {pair : SessionPair}
    {content : ArmMessage} (hsuite : x.suite = S) (hown : x.own.publicKey = c.address a)
    (hpeer : x.peer = c.address a.other) (hm : Spoken S c acts b m)
    (ho : Turn.openMessage x pair m = .ok content) :
    b = a.other ∧ (∀ k, content = .keyExchange k → Drew S c acts a.other k) ∧
      ∀ id, content = .acknowledgement id → HeldEver S c acts a.other id := by
  obtain ⟨⟨key, said, hsealed, hkey, hname⟩, -⟩ := hm
  unfold Turn.openMessage at ho
  simp only [hsuite, hown, hpeer] at ho
  cases hd : S.decrypt pair.rx m.nonce (associatedData (c.address a.other) (c.address a) m.agreementId)
      m.ciphertext with
  | none =>
    rw [hd] at ho
    cases ho
  | some plaintext =>
    obtain ⟨-, -, hdata, hplain⟩ := hS _ _ _ _ _ _ _ _ _ hsealed hd
    have hb : b = a.other := by
      rcases Side.eq_or_eq_other a b with rfl | hb
      · exact absurd (associatedData_injective hdata).1.symm hne
      · exact hb
    rw [hd] at ho
    simp only [hplain, ArmMessage.decode_encode] at ho
    cases ho
    subst hb
    exact ⟨rfl, hkey, hname⟩

/-! ### What an action keeps -/

theorem Sane.sound (h : Sane S c acts) (a : Side) : ((c.run S acts).ends a).engine.sessions.Sound :=
  (h.ends a).sound

theorem Sane.address (h : Sane S c acts) (a : Side) : (c.run S acts).address a = c.address a :=
  congrArg KeyPair.publicKey (h.identity a)

theorem Sane.sincere_message (h : Sane S c acts) (hS : S.Binds) (hm : m ∈ (c.run S acts).sent) (a : Side)
    (now : Nat) (act : Action) :
    (Hearing.ofMessage (((c.run S acts).ends a).engine.context S now (c.address a.other)) m).Sincere S
      ((c.run S acts).ends a).engine.identity (c.address a.other) (lore S c (acts ++ [(now, act)]) a) := by
  obtain ⟨b, hb⟩ := h.sent m hm
  have hown : ((c.run S acts).ends a).engine.identity.publicKey = c.address a := h.address a
  refine ⟨?_, ?_⟩
  · intro hne k hk
    obtain ⟨pair, ho⟩ := hk
    rw [hown] at hne
    obtain ⟨-, hdrew, -⟩ := speaker hS hne rfl hown rfl hb ho
    exact (hdrew k rfl).concat h.sound
  · intro longTime id hlong hname
    rw [hown] at hlong
    rcases hname with ⟨rfl, hne⟩ | ⟨pair, ho⟩
    · rcases hb.name with hid | hboth
      · -- The long-time agreement has one name at both ends.
        have hsame : S.agreementId (c.address b) (c.address b.other) = .ok longTime := by
          rcases Side.eq_or_eq_other a b with rfl | rfl
          · exact hlong
          · rw [Side.other_other, Suite.agreementId_comm]
            exact hlong
        rw [hsame] at hid
        exact absurd (Except.ok.inj hid).symm hne
      · exact (hboth a.other).before
    · obtain ⟨-, -, hheld⟩ := speaker hS (Suite.ne_of_agreementId hlong) rfl hown rfl hb ho
      exact (hheld id rfl).before

theorem Sane.operation (h : Sane S c acts) (hS : S.Binds) (now : Nat) {op : Operation}
    (hop : (c.run S acts).operation act = some op) :
    (∀ p, op.peers ((c.run S acts).ends act.side) p → p = c.address act.side.other) ∧
      (op.hearing S now ((c.run S acts).ends act.side)).Sincere S
        ((c.run S acts).ends act.side).engine.identity (c.address act.side.other)
        (lore S c (acts ++ [(now, act)]) act.side) := by
  have hsilence := Endpoint.sincere_silence S ((c.run S acts).ends act.side).engine.identity
    (c.address act.side.other) (lore S c (acts ++ [(now, act)]) act.side)
  cases act with
  | arm a payload =>
    cases hop
    exact ⟨fun p hp => hp.trans (h.address a.other), hsilence⟩
  | deliver a k =>
    obtain ⟨m, hm, rfl⟩ := Option.map_eq_some_iff.1 hop
    refine ⟨fun p hp => hp.trans (h.address a.other), ?_⟩
    rw [h.address a.other]
    exact h.sincere_message hS (List.mem_of_getElem? hm) a now (.deliver a k)
  | collect a =>
    cases hop
    exact ⟨fun p hp => hp.elim, hsilence⟩
  | chore a work =>
    cases hop
    cases work with
    | runDeferred =>
      refine ⟨?_, hsilence⟩
      intro p hp
      obtain ⟨job, hjob, rfl⟩ := hp
      exact (h.ends a).jobs job hjob
    | evictIdleSessions => exact ⟨fun p hp => hp.elim, hsilence⟩
    | drainEvents => exact ⟨fun p hp => hp.elim, hsilence⟩
    | _ => exact ⟨fun p hp => hp.trans (h.address a.other), hsilence⟩

theorem Sane.identity_concat (h : Sane S c acts) (now : Nat) (act : Action) (a : Side) :
    ((c.run S (acts ++ [(now, act)])).ends a).engine.identity = (c.ends a).engine.identity := by
  rw [run_concat, (entropy_act now act h.sound a).1]
  exact h.identity a

/-- After an action both ends know only what is true. -/
theorem Sane.ends_concat (h : Sane S c acts) (hS : S.Binds) (now : Nat) (act : Action) (a : Side) :
    ((c.run S (acts ++ [(now, act)])).ends a).Known S (c.address a.other)
      (lore S c (acts ++ [(now, act)]) a) (Spoken S c (acts ++ [(now, act)]) a) := by
  have hbefore : ∀ a, ((c.run S acts).ends a).Known S (c.address a.other)
      (lore S c (acts ++ [(now, act)]) a) (Spoken S c (acts ++ [(now, act)]) a) := fun a =>
    (h.ends a).weaken rfl (fun k hk => hk.concat h.sound) (fun id hid => HeldEver.before (Or.inl hid))
      fun m hm => hm.concat h.sound
  have hsession : (c.run S (acts ++ [(now, act)])).session act.side =
      ((c.run S (acts ++ [(now, act)])).ends act.side).engine.held (c.address act.side.other) :=
    congrArg (Engine.held _) (congrArg KeyPair.publicKey (h.identity_concat now act act.side.other))
  rw [run_concat] at hsession ⊢
  refine ends_act_keeps (P := fun a w => w.Known S (c.address a.other)
    (lore S c (acts ++ [(now, act)]) a) (Spoken S c (acts ++ [(now, act)]) a)) hbefore ?_ a
  intro op hop
  obtain ⟨hpeers, hsincere⟩ := h.operation hS now hop
  apply (hbefore act.side).perform op hpeers hsincere
  intro s id m hheld hi hlong hm
  rw [h.identity] at hlong
  refine spoken_sealed rfl (h.address act.side) rfl hm nofun ?_ (Or.inl hlong)
  intro id' hid'
  cases hid'
  -- The acknowledged agreement is under negotiation when the operation is over.
  obtain ⟨g, hg, hid⟩ := Option.bind_eq_some_iff.1 hi
  rw [ends_act_side, hop] at hsession
  refine Or.inr ⟨s, g, ?_, Or.inl hg, hid⟩
  rw [run_concat, hsession]
  exact hheld

theorem Sane.said (h : Sane S c acts) (hS : S.Binds) (now : Nat) (act : Action)
    (hm : m ∈ (c.run S acts).said S now act) : Spoken S c (acts ++ [(now, act)]) act.side m := by
  cases act with
  | arm a payload =>
    have hnew := h.ends_concat hS now (.arm a payload) a
    have hidentity := h.identity_concat now (.arm a payload)
    obtain ⟨s, id, pair, hheld, hsealed, hname⟩ := Endpoint.armOutbound_ok (h.sound a) (ok_of_mem hm)
    have hends : (c.run S (acts ++ [(now, .arm a payload)])).ends a =
        (Operation.armOutbound ((c.run S acts).address a.other) payload).perform S now
          ((c.run S acts).ends a) := by
      rw [run_concat]
      exact ends_act_side S now (c.run S acts) (.arm a payload)
    have hpeer := h.address a.other
    rw [← hends, hpeer] at hheld
    have hs := hnew.session s hheld
    refine spoken_sealed rfl (h.address a) hpeer hsealed nofun nofun ?_
    rcases hname with rfl | ⟨g, bond, hactive, hbond, rfl, -⟩
    · have hlong := hs.longTime
      rw [hidentity] at hlong
      exact Or.inl hlong
    · have hg : s.Promoted bond.id g := Or.inl ⟨hactive, by rw [Agreement.id, hbond]; rfl⟩
      apply Or.inr
      intro b
      rcases Side.eq_or_eq_other a b with rfl | rfl
      · refine Or.inr ⟨s, g, ?_, hg.has, hs.named _ g hg⟩
        rw [session, Conversation.address, Engine.address, hidentity]
        exact hheld
      · exact Or.inl (hs.promoted _ g hg)
  | collect a =>
    obtain ⟨o, ho, rfl⟩ := List.mem_map.1 hm
    rcases (h.ends a).outbox o ho with hspoken | hoffer
    · exact hspoken.concat h.sound
    · exact (spoken_offer (h.identity a) hoffer).concat h.sound
  | deliver a k => cases hm
  | chore a work => cases hm

/-- **Every action keeps the ends sane.** -/
theorem Sane.concat (h : Sane S c acts) (hS : S.Binds) (now : Nat) (act : Action) :
    Sane S c (acts ++ [(now, act)]) where
  identity := h.identity_concat now act
  ends := h.ends_concat hS now act
  sent m hm := by
    rw [run_concat] at hm
    rcases List.mem_append.1 hm with hold | hsaid
    · obtain ⟨a, ha⟩ := h.sent m hold
      exact ⟨a, ha.concat h.sound⟩
    · exact ⟨act.side, h.said hS now act hsaid⟩

/-! ### Runs -/

theorem sane_start (S : Suite) (identity : Side → KeyPair) (config : Side → ArmConfig)
    (entropy : Side → Entropy) : Sane S (start identity config entropy) [] where
  identity _ := rfl
  ends a := .start S (identity a) (config a) (entropy a) (Nat.le_refl _)
  sent m hm := by cases hm

theorem sane_run (hS : S.Binds) (identity : Side → KeyPair) (config : Side → ArmConfig)
    (entropy : Side → Entropy) (acts : List (Nat × Action)) :
    Sane S (start identity config entropy) acts := by
  induction acts using List.reverseRecOn with
  | nil => exact sane_start S identity config entropy
  | append_singleton acts act ih => exact ih.concat hS act.1 act.2

theorem Drew.append (hs : ∀ acts, Sane S c acts) (h : Drew S c acts a key) (rest : List (Nat × Action)) :
    Drew S c (acts ++ rest) a key := by
  induction rest using List.reverseRecOn with
  | nil => simpa using h
  | append_singleton rest act ih =>
    rw [← List.append_assoc]
    exact ih.concat (hs _).sound

/-- What an end holds is bonded, if it has a name: with a key of the other end, under its own. -/
theorem Sane.bonded (h : Sane S c acts) {s : Session} {g : Agreement}
    (hs : (c.run S acts).session a = some s) (hg : s.Has g) (hid : g.id = some id) :
    ∃ secret secret' b, g.keyPair = S.keyPair secret ∧ g.bond = some b ∧ b.id = id ∧
      Drew S c acts a (S.publicOf secret) ∧ Drew S c acts a.other (S.publicOf secret') ∧
      Agreement.bondWith S (S.keyPair secret) (S.publicOf secret') = .ok b := by
  rw [session, h.address] at hs
  have hknown := (h.ends a).session s hs
  obtain ⟨b, hb, hbid⟩ := Option.map_eq_some_iff.1 hid
  obtain ⟨⟨p, hp, hrecipient⟩, hbond⟩ := hknown.bonds g b hg hb
  have hkey := hknown.keys g hg
  obtain ⟨secret, hsecret⟩ := hkey.keyPair
  obtain ⟨secret', rfl⟩ := hp.keyPair
  refine ⟨secret, secret', b, hsecret, hb, hbid, ⟨g.keyPair, hkey, ?_⟩, ⟨_, hp, rfl⟩, ?_⟩
  · rw [hsecret]
    rfl
  · have hpublic : S.publicOf secret' = b.recipient := hrecipient
    rw [hpublic, ← hsecret]
    exact hbond

/-- Bonds of one name at the two ends mirror each other, the other end's at the same or an earlier point. -/
theorem mirror (hcommutes : S.Commutes) (hsane : ∀ acts, Sane S c acts) {past rest : List (Nat × Action)}
    (hapart : Apart S c (past ++ rest)) (hcollision : NoCollision S c (past ++ rest)) {s s' : Session}
    {g g' : Agreement} {bond bond' : Bond} (hs : (c.run S (past ++ rest)).session a = some s) (hg : s.Has g)
    (hbond : g.bond = some bond) (hs' : (c.run S past).session a.other = some s') (hg' : s'.Has g')
    (hbond' : g'.bond = some bond') (hname : bond'.id = bond.id) : bond'.pair = bond.pair.swap := by
  obtain ⟨own, peer, b, hown, hb, hbid, hkey, hpeer, hwith⟩ :=
    (hsane _).bonded hs hg (congrArg (·.map (·.id)) hbond)
  obtain ⟨own', peer', b', hown', hb', hbid', hkey', hpeer', hwith'⟩ :=
    (hsane past).bonded hs' hg' (congrArg (·.map (·.id)) hbond')
  rw [hbond, Option.some.injEq] at hb
  rw [hbond', Option.some.injEq] at hb'
  subst hb hb'
  rw [Side.other_other] at hpeer'
  have hkey' := hkey'.append hsane rest
  have hpeer' := hpeer'.append hsane rest
  have hid := (bondWith_ok hwith).2.1
  have hid' := (bondWith_ok hwith').2.1
  rw [hname, Suite.agreementId_comm] at hid'
  -- One name, so the same two keys.  If each end had the same one of them for its own, both had drawn both.
  have hsame : S.publicOf own = S.publicOf peer' ∧ S.publicOf peer = S.publicOf own' := by
    rcases hcollision _ _ _ _ _ ⟨a, hkey⟩ ⟨a.other, hpeer⟩ ⟨a, hpeer'⟩ ⟨a.other, hkey'⟩ hid hid' with
      hsame | ⟨hown, hpeers⟩
    · exact hsame
    · rw [← hown] at hkey'
      rw [← hpeers] at hpeer'
      exact absurd (hapart _ _ (Side.forall_of_both hkey hkey') (Side.forall_of_both hpeer' hpeer))
        (Suite.ne_of_agreementId hid)
  rw [← hsame.1] at hwith'
  rw [hsame.2] at hwith
  exact (bond_mirror hcommutes hwith hwith').2

/-- **Agreements are mutual.**  Whatever an end has promoted, the other end held at some earlier point of
the run, with the same name and the same session keys, seen from there. -/
theorem mirrored_run (hcommutes : S.Commutes) (hbinds : S.Binds) (identity : Side → KeyPair)
    (config : Side → ArmConfig) (entropy : Side → Entropy) (acts : List (Nat × Action))
    (hapart : Apart S (start identity config entropy) acts)
    (hcollision : NoCollision S (start identity config entropy) acts) (a : Side) (s : Session)
    (id : AgreementId) (g : Agreement)
    (hs : ((start identity config entropy).run S acts).session a = some s) (hg : s.Promoted id g) :
    g.id = some id ∧ ∃ past act rest s' g', acts = past ++ act :: rest ∧
      ((start identity config entropy).run S past).session a.other = some s' ∧ s'.Has g' ∧
      g'.id = some id ∧ ∃ pair, g.pair = some pair ∧ g'.pair = some pair.swap := by
  have hsane := sane_run hbinds identity config entropy
  generalize start identity config entropy = c at hapart hcollision hs hsane ⊢
  have hknown := ((hsane acts).ends a).session s (by rw [← (hsane acts).address]; exact hs)
  have hname := hknown.named id g hg
  refine ⟨hname, ?_⟩
  obtain ⟨past, act, rest, rfl, s', g', hs', hg', hname'⟩ := hknown.promoted id g hg
  obtain ⟨b, hb, hbid⟩ := Option.map_eq_some_iff.1 hname
  obtain ⟨b', hb', hbid'⟩ := Option.map_eq_some_iff.1 hname'
  have hpair := mirror hcommutes hsane hapart hcollision hs hg.has hb hs' hg' hb' (hbid'.trans hbid.symm)
  exact ⟨past, act, rest, s', g', rfl, hs', hg', hname', b.pair, by rw [Agreement.pair, hb]; rfl,
    by rw [Agreement.pair, hb', ← hpair]; rfl⟩

/-! ### A greeting -/

def greeters : Conversation :=
  .start (fun a => Textbook.suite.keyPair ⟨Textbook.remainder (if a = .left then 5 else 7)⟩) (fun _ => {})
    fun a => Textbook.counting (if a = .left then 11 else 13)

/-- The left end says something, the ends exchange their keys, and the right end's acknowledgement comes
back. -/
def greeting : List (Nat × Action) := [(1, .arm .left [104, 105]), (2, .chore .left .runDeferred),
  (3, .collect .left), (4, .deliver .right 1), (5, .collect .right), (6, .deliver .left 2),
  (7, .deliver .left 3)]

def DrewOnce (acts : List (Nat × Action)) : Prop :=
  ∀ a, ((greeters.run Textbook.suite acts).ends a).entropy.secretsDrawn = 1 ∧
    Textbook.suite.publicOf (((greeters.run Textbook.suite acts).ends a).entropy.secretAt 0) =
      Textbook.suite.publicOf ⟨Textbook.remainder (if a = .left then 11 else 13)⟩

theorem DrewOnce.eq (h : DrewOnce acts) (hkey : Drew Textbook.suite greeters acts a key) :
    key = Textbook.suite.publicOf ⟨Textbook.remainder (if a = .left then 11 else 13)⟩ := by
  obtain ⟨p, ⟨i, -, hi, rfl⟩, rfl⟩ := hkey
  rw [(h a).1] at hi
  obtain rfl : i = 0 := by omega
  exact (h a).2

theorem DrewOnce.apart (h : DrewOnce acts) : Apart Textbook.suite greeters acts :=
  fun _ _ hk hk' => (h.eq (hk .left)).trans (h.eq (hk' .left)).symm

theorem DrewOnce.noCollision (h : DrewOnce acts) : NoCollision Textbook.suite greeters acts := by
  intro k₁ k₂ k₁' k₂' id ⟨a, ha⟩ ⟨b, hb⟩ ⟨a', ha'⟩ ⟨b', hb'⟩ hid hid'
  have hne := Suite.ne_of_agreementId hid
  have hne' := Suite.ne_of_agreementId hid'
  rw [h.eq ha, h.eq hb] at hne
  rw [h.eq ha', h.eq hb'] at hne'
  rw [h.eq ha, h.eq hb, h.eq ha', h.eq hb']
  cases a <;> cases b <;> cases a' <;> cases b' <;> simp_all

theorem once_greeting : DrewOnce greeting := by
  intro a
  cases a <;> decide +kernel

/-- The left greeter promotes an agreement, which the right one held. -/
theorem mirrored_greeting : ∃ s id g, (greeters.run Textbook.suite greeting).session .left = some s ∧
    s.Promoted id g ∧ g.id = some id ∧ ∃ past act rest s' g', greeting = past ++ act :: rest ∧
      (greeters.run Textbook.suite past).session .right = some s' ∧ s'.Has g' ∧ g'.id = some id ∧
      ∃ pair, g.pair = some pair ∧ g'.pair = some pair.swap := by
  have hsome : (((greeters.run Textbook.suite greeting).session .left).bind
      fun s => s.active.bind (·.id)).isSome := by decide +kernel
  obtain ⟨id, hid⟩ := Option.isSome_iff_exists.1 hsome
  obtain ⟨s, hs, hactive⟩ := Option.bind_eq_some_iff.1 hid
  obtain ⟨g, hg, hname⟩ := Option.bind_eq_some_iff.1 hactive
  exact ⟨s, id, g, hs, Or.inl ⟨hg, hname⟩, mirrored_run Textbook.suite_commutes Textbook.suite_binds _ _ _
    greeting once_greeting.apart once_greeting.noCollision .left s id g hs (Or.inl ⟨hg, hname⟩)⟩

/-! ### Keys that are drawn twice -/

/-- Two ends that draw the same keys. -/
def twins : Conversation :=
  .start (fun a => Textbook.suite.keyPair ⟨Textbook.remainder (if a = .left then 5 else 7)⟩) (fun _ => {})
    fun _ => Textbook.counting 11

/-- The first keys of both ends are on their way until the sessions have expired and each end has its second key.  The
left end hears the acknowledgement of the agreement that comes of it. -/
def delay : List (Nat × Action) := [(1, .chore .left .doKeyExchange), (1, .chore .right .doKeyExchange),
  (2, .collect .left), (2, .collect .right), (300002, .chore .left .doKeyExchange),
  (300002, .chore .right .doKeyExchange), (300003, .deliver .left 1), (300003, .deliver .right 0),
  (300004, .collect .right), (300005, .deliver .left 3)]

theorem drawn_delay (hkey : Drawn Textbook.suite twins delay key) :
    key = Textbook.suite.publicOf ⟨Textbook.remainder 11⟩ ∨ key = Textbook.suite.publicOf ⟨Textbook.remainder 12⟩ := by
  have hdrawn : ∀ a, ((twins.run Textbook.suite delay).ends a).entropy.secretsDrawn = 2 ∧
      ((twins.run Textbook.suite delay).ends a).entropy.secretAt 0 = ⟨Textbook.remainder 11⟩ ∧
      ((twins.run Textbook.suite delay).ends a).entropy.secretAt 1 = ⟨Textbook.remainder 12⟩ := by decide +kernel
  obtain ⟨a, p, ⟨i, -, hi, rfl⟩, rfl⟩ := hkey
  obtain ⟨hcount, hfirst, hsecond⟩ := hdrawn a
  rw [hcount] at hi
  obtain rfl | rfl : i = 0 ∨ i = 1 := by omega
  · rw [hfirst]
    exact Or.inl rfl
  · rw [hsecond]
    exact Or.inr rfl

theorem noCollision_delay : NoCollision Textbook.suite twins delay := by
  intro k₁ k₂ k₁' k₂' id h₁ h₂ h₁' h₂' hid hid'
  have hne := Suite.ne_of_agreementId hid
  have hne' := Suite.ne_of_agreementId hid'
  rcases drawn_delay h₁ with rfl | rfl <;> rcases drawn_delay h₂ with rfl | rfl <;>
    rcases drawn_delay h₁' with rfl | rfl <;> rcases drawn_delay h₂' with rfl | rfl <;> simp_all

/-- **Keys must not be drawn twice.**  Names tell the keys of the twins, and the left twin has promoted an agreement; but
the right one never held its mirror image. -/
theorem unmirrored_twins : NoCollision Textbook.suite twins delay ∧
    ∃ s id g, (twins.run Textbook.suite delay).session .left = some s ∧ s.Promoted id g ∧
      ¬ ∃ past act rest s' g', delay = past ++ act :: rest ∧
        (twins.run Textbook.suite past).session .right = some s' ∧ s'.Has g' ∧ g'.id = some id ∧
        ∃ pair, g.pair = some pair ∧ g'.pair = some pair.swap := by
  have hactive : (((twins.run Textbook.suite delay).session .left).bind (·.active)).any fun g =>
      g.id.isSome ∧ ∀ past ∈ delay.inits, ∀ s' ∈ (twins.run Textbook.suite past).session .right,
        ∀ g' ∈ s'.agreements, g'.id = g.id → g'.pair ≠ g.pair.map SessionPair.swap := by decide +kernel
  obtain ⟨g, hg, hall⟩ := (Option.any_eq_true _ _).1 hactive
  obtain ⟨s, hs, hactive⟩ := Option.bind_eq_some_iff.1 hg
  obtain ⟨hsome, hnever⟩ := of_decide_eq_true hall
  obtain ⟨id, hid⟩ := Option.isSome_iff_exists.1 hsome
  refine ⟨noCollision_delay, s, id, g, hs, Or.inl ⟨hactive, hid⟩, ?_⟩
  rintro ⟨past, act, rest, s', g', hacts, hs', hhas, hname, pair, hpair, hmirror⟩
  have hpast : past ∈ delay.inits := (List.mem_inits _ _).2 ⟨act :: rest, hacts.symm⟩
  refine hnever past hpast s' hs' g' hhas.mem_agreements (hname.trans hid.symm) ?_
  rw [hmirror, hpair]
  rfl

end Conversation

end Overlay
