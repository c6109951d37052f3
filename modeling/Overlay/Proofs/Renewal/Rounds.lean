import Mathlib.Data.List.Infix
import Overlay.Proofs.Engine.Ledger
import Overlay.Proofs.Renewal.Round

/-!
# Renewal keeps forward secrecy up

Two ends have promoted one agreement, and then exchange payloads in rounds that are not too far apart.  However many
rounds there are, every payload is read as it was sent, no end tells of long-time encryption, and after every round
both ends encrypt under one agreement that is not stale (`renewal_keeps`).

Between two rounds nothing is left to do, and the ends have promoted the agreement at the same moment (`Accord`), not
longer ago than the retry interval.  So when the next round begins the agreement is still good, and if a renewal is due
then, it is due at both ends; a round goes as the outline says, and leaves the ends in such a state again
(`Accord.round`).

No round may take place at the last moment of the clock: no deadline is later, so any agreement is stale then.  No
retention may have wrapped: an agreement would encrypt for longer than it can decrypt.  And both ends must have the same
retry interval: if one asks before the other one is ready to answer with a key, the next round may leave them with
different agreements (`renewal_lapses`).
-/

namespace Overlay

/-- Renewals keep pace with rounds that are at most so far apart, on a clock that starts at some moment. -/
structure ArmConfig.Paced (c : ArmConfig) (retry gap start : Nat) : Prop where
  enabled : c.enabled = true
  interval : c.retryInterval.millis = retry
  expiry : retry + gap < c.expireAfter.millis
  idle : ∀ bound ∈ c.sessionExpireAfter.bound?, gap < bound
  clock : c.expireAfter.millis ≤ start

instance (c : ArmConfig) (retry gap start : Nat) : Decidable (c.Paced retry gap start) :=
  decidable_of_iff
    (c.enabled = true ∧ c.retryInterval.millis = retry ∧ retry + gap < c.expireAfter.millis ∧
      (∀ bound ∈ c.sessionExpireAfter.bound?, gap < bound) ∧ c.expireAfter.millis ≤ start)
    ⟨fun h => ⟨h.1, h.2.1, h.2.2.1, h.2.2.2.1, h.2.2.2.2⟩,
      fun h => ⟨h.enabled, h.interval, h.expiry, h.idle, h.clock⟩⟩

/-- An agreement can decrypt for as long as it encrypts.  It can, unless the retention wraps
(`expireAfter_le_retention`). -/
def ArmConfig.Retains (c : ArmConfig) : Prop := ∀ ttl ∈ c.retention.bound?, c.expireAfter.millis ≤ ttl

instance (c : ArmConfig) : Decidable c.Retains :=
  inferInstanceAs (Decidable (∀ ttl ∈ c.retention.bound?, c.expireAfter.millis ≤ ttl))

/-- A session that promoted an agreement at a moment, and has neither tried to renew it nor sent a key since. -/
structure Session.PromotedAt (c : ArmConfig) (b : Bond) (since : Nat) (s : Session) : Prop where
  name : b.id ≠ s.longTimeId
  state : s.state = .forwardSecrecy
  active : ∃ g ∈ s.active, g.bond = some b ∧ g.staleAt = some (after since c.expireAfter.millis) ∧
    s.initialized.stored b.id = some ⟨b.id, g, since⟩
  renewal : s.lastRenewAttemptAt = some since
  exchange : ∀ t ∈ s.lastKeyExchangeAt, t ≤ since

instance (c : ArmConfig) (b : Bond) (since : Nat) (s : Session) : Decidable (s.PromotedAt c b since) :=
  decidable_of_iff
    (b.id ≠ s.longTimeId ∧ s.state = .forwardSecrecy ∧
      (∃ g ∈ s.active, g.bond = some b ∧ g.staleAt = some (after since c.expireAfter.millis) ∧
        s.initialized.stored b.id = some ⟨b.id, g, since⟩) ∧
      s.lastRenewAttemptAt = some since ∧ ∀ t ∈ s.lastKeyExchangeAt, t ≤ since)
    ⟨fun h => ⟨h.1, h.2.1, h.2.2.1, h.2.2.2.1, h.2.2.2.2⟩, fun h => ⟨h.name, h.state, h.active, h.renewal, h.exchange⟩⟩

namespace Endpoint

def PromotedAt (peer : PublicKey) (b : Bond) (since seen : Nat) (w : Endpoint) : Prop :=
  ∃ i ∈ w.engine.sessions.stored peer, seen ≤ i.touchedAt ∧ i.value.PromotedAt w.engine.config b since

instance (peer : PublicKey) (b : Bond) (since seen : Nat) (w : Endpoint) :
    Decidable (w.PromotedAt peer b since seen) := by
  unfold PromotedAt
  infer_instance

/-- What holds of an endpoint and its session with a peer in every run. -/
structure Founded (S : Suite) (c : ArmConfig) (own : KeyPair) (peer : PublicKey) (w : Endpoint) : Prop where
  identity : w.engine.identity = own
  config : w.engine.config = c
  sound : w.engine.sessions.Sound
  policy : w.engine.sessions.policy = .afterAccess
  ttl : w.engine.sessions.ttl = c.sessionExpireAfter.bound?
  ledger : ∃ owner, w.Ledger S owner
  session : ∀ s, w.engine.held peer = some s → s.Furnished c ∧
    Agreement.bondWith S own peer = .ok ⟨peer, s.longTimeId, s.longTimePair⟩

theorem founded_run (S : Suite) (own : KeyPair) (c : ArmConfig) (entropy : Entropy) (ops : List (Nat × Operation))
    (peer : PublicKey) : ((start own c entropy).run S ops).Founded S c own peer := by
  have hstart := sound_start own c entropy
  have hbounds := bounds_run (S := S) hstart ops
  have hledger := ledger_run S hstart (ledger_start S own c entropy fun _ => none) ops
  refine ⟨identity_run hstart ops, config_run hstart ops, sound_run hstart ops, congrArg (·.1) hbounds,
    congrArg (·.2.1) hbounds, hledger.imp fun _ h => h.2, ?_⟩
  intro s hs
  refine ⟨furnished_run S own c entropy ops peer s hs, ?_⟩
  refine sessions_run S own c entropy ops
    (Q := fun p s => Agreement.bondWith S own p = .ok ⟨p, s.longTimeId, s.longTimePair⟩) ?_ ?_ peer s hs
  · intro p s hs
    obtain ⟨b, hb, rfl⟩ := Engine.freshSession_ok hs
    have hrecipient := (bondWith_ok hb).1
    rw [← hrecipient] at hb ⊢
    exact hb
  · intro p x h t t' hm ht
    rw [hm.longTime.1, hm.longTime.2]
    exact ht

end Endpoint

namespace Renewal

variable {S : Suite} {P : Party} {w : Endpoint} {h : Half} {seen : Nat} {told : List Event}

/-- What is under negotiation has a key that was drawn, and otherwise one will be drawn. -/
theorem exists_key {c : ArmConfig} {own : KeyPair} {peer : PublicKey} {s : Session} (hw : w.Founded S c own peer)
    (hs : w.engine.held peer = some s) :
    ∃ i ≤ w.entropy.secretsDrawn, (∀ g, s.inactive = some g → g.keyPair = S.keyPair (w.entropy.secretAt i)) ∧
      (s.inactive = none → i = w.entropy.secretsDrawn) := by
  obtain ⟨owner, hledger⟩ := hw.ledger
  cases hx : s.inactive with
  | none => exact ⟨w.entropy.secretsDrawn, Nat.le_refl _, fun g hg => (by cases hg), fun _ => rfl⟩
  | some g =>
    obtain ⟨⟨i, hi, -, hkey⟩, -⟩ := hledger peer s hs g hx
    refine ⟨i, Nat.le_of_lt hi, ?_, fun hnone => (by cases hnone)⟩
    intro g' hg'
    cases hg'
    exact hkey

/-- An end that has promoted an agreement is ready for a round. -/
theorem runs_of_promoted (hw : w.Founded S P.config P.own P.peer)
    {i : Overlay.Item PublicKey Session} (hi : w.engine.sessions.stored P.peer = some i) (hseen : seen ≤ i.touchedAt)
    (hs : i.value.PromotedAt P.config P.current P.since)
    (hlong : P.longTime = ⟨P.peer, i.value.longTimeId, i.value.longTimePair⟩) (hle : seen ≤ P.now)
    (hidle : ∀ bound, P.config.sessionExpireAfter.bound? = some bound → P.now < seen + bound)
    (hquiet : w.engine.deferred = [] ∧ w.engine.outbox = []) {k : Nat}
    (hkey : P.key = S.keyPair (w.entropy.secretAt k))
    (hdrawn : ∀ g, i.value.inactive = some g → g.keyPair = S.keyPair (w.entropy.secretAt k))
    (hnext : i.value.inactive = none → k = w.entropy.secretsDrawn) :
    P.Runs S seen w.engine.events ⟨.idle, 0, [], []⟩ w := by
  have hheld : w.engine.held P.peer = some i.value := by
    rw [Engine.held, hi]
    rfl
  have hlive : w.engine.sessions.overdue i P.now = false := by
    rw [Cache.overdue_eq, hw.ttl]
    cases hb : P.config.sessionExpireAfter.bound? with
    | none => rfl
    | some bound =>
      have := hidle bound hb
      simp only [Option.any_some, decide_eq_false_iff_not]
      omega
  refine ⟨hw.identity, hw.config, hw.sound, hw.policy, hw.ttl, ⟨i, hi, hlive, hseen, i.value.inactive, ?_, ?_⟩,
    hquiet.1, by rw [hquiet.2]; exact .nil, rfl⟩
  · intro g hg
    rw [hkey]
    exact hdrawn g hg
  · obtain ⟨-, hstate, hactive, hrenewal, hexchange⟩ := hs
    refine ⟨⟨⟨(hw.session _ hheld).1, by rw [hlong], by rw [hlong], hstate, hactive⟩, hrenewal, hexchange, rfl⟩, ?_,
      rfl, .nil, rfl⟩
    intro _ hnone
    rw [hkey, hnext hnone]
    rfl

/-- When it is done with a round, an end has promoted an agreement: the next one, if the renewal was due. -/
theorem promoted_of_runs (hw : P.Runs S seen told h w) {due : Bool}
    (hstage : if due then h.stage.renewed else h.stage = .idle) (hname : (P.used due).id ≠ P.longTime.id) :
    w.PromotedAt P.peer (P.used due) (P.mark due) seen := by
  have hphase : ∀ s : Stage, (if due then s.renewed else s = .idle) →
      s.renewed = due ∧ s.tried = due ∧ s.sent = due := by
    cases due <;> decide
  obtain ⟨i, hi, -, hseen, slot, -, hstands⟩ := hw.session
  obtain ⟨huses, hrenewal, hexchange, -⟩ := hstands.session
  obtain ⟨hr, ht, hs⟩ := hphase h.stage hstage
  simp only [Stage.phase, hr, ht, hs] at huses hrenewal hexchange
  refine ⟨i, hi, hseen, by rw [huses.id]; exact hname, huses.state, ?_, hrenewal, ?_⟩
  · rw [hw.config]
    exact huses.active
  · intro t hlast
    cases due with
    | true => exact Nat.le_of_eq (Option.some.inj (hlast.symm.trans hexchange))
    | false => exact hexchange t hlast

end Renewal

namespace Dialogue

instance (d : Dialogue) : Decidable d.Quiet := inferInstanceAs (Decidable (∀ _, _ ∧ _ ∧ _))

/-- Nothing is left to do after some run of both ends, and they have promoted one agreement at a moment.  They were
active with each other at another moment or later. -/
structure Accord (S : Suite) (secret : Side → SecretKey) (config : Side → ArmConfig) (since seen : Nat)
    (d : Dialogue) : Prop where
  quiet : d.Quiet
  reached : ∀ a, ∃ entropy ops, d.ends a = (Endpoint.start (S.keyPair (secret a)) (config a) entropy).run S ops
  promoted : ∃ bond : Side → Bond, ∀ a,
    ((bond a.other).id = (bond a).id ∧ (bond a.other).pair = (bond a).pair.swap) ∧
      (d.ends a).PromotedAt (S.publicOf (secret a.other)) (bond a) since seen

/-- Both ends encrypt under one agreement, which is not stale: it has one name, and what one end encrypts with the
other end decrypts with. -/
def Shares (d : Dialogue) (now : Nat) : Prop :=
  ∃ (id : AgreementId) (pair : Side → SessionPair), ∀ a, pair a.other = (pair a).swap ∧
    ∃ s g, d.session a now = some s ∧ s.state = .forwardSecrecy ∧ s.active = some g ∧ g.id = some id ∧
      g.pair = some (pair a) ∧ g.isStale now = false

def drawn (d : Dialogue) (a : Side) : Nat := (d.ends a).entropy.secretsDrawn

def key (S : Suite) (d : Dialogue) (a : Side) (i : Nat) : PublicKey := S.publicOf ((d.ends a).entropy.secretAt i)

/-- The keys that the ends have drawn, and the ones that they draw next, make agreements that can be told from the
long-time agreement. -/
structure KeysDiffer (S : Suite) (secret : Side → SecretKey) (d : Dialogue) : Prop where
  apart : ∀ a, ∀ i ≤ d.drawn a, ∀ j ≤ d.drawn a.other, d.key S a i ≠ d.key S a.other j
  offer : ∀ a, ∀ i ≤ d.drawn a, d.key S a i ≠ S.publicOf (secret a)
  name : ∀ a, ∀ i ≤ d.drawn a, ∀ j ≤ d.drawn a.other, S.agreementId (d.key S a i) (d.key S a.other j) ≠
    S.agreementId (S.publicOf (secret a)) (S.publicOf (secret a.other))

instance (S : Suite) (secret : Side → SecretKey) (d : Dialogue) : Decidable (d.KeysDiffer S secret) :=
  decidable_of_iff
    ((∀ a, ∀ i ≤ d.drawn a, ∀ j ≤ d.drawn a.other, d.key S a i ≠ d.key S a.other j) ∧
      (∀ a, ∀ i ≤ d.drawn a, d.key S a i ≠ S.publicOf (secret a)) ∧
      ∀ a, ∀ i ≤ d.drawn a, ∀ j ≤ d.drawn a.other, S.agreementId (d.key S a i) (d.key S a.other j) ≠
        S.agreementId (S.publicOf (secret a)) (S.publicOf (secret a.other)))
    ⟨fun h => ⟨h.1, h.2.1, h.2.2⟩, fun h => ⟨h.apart, h.offer, h.name⟩⟩

def rounds (S : Suite) (d : Dialogue) (rs : List Round) : Dialogue := d.run S (rs.flatMap Round.actions)

variable {S : Suite} {secret : Side → SecretKey} {config : Side → ArmConfig} {since seen retry gap start : Nat}
  {d : Dialogue}

theorem rounds_nil (S : Suite) (d : Dialogue) : d.rounds S [] = d := rfl

theorem rounds_cons (S : Suite) (d : Dialogue) (r : Round) (rs : List Round) :
    d.rounds S (r :: rs) = (d.run S r.actions).rounds S rs := by
  unfold rounds
  rw [List.flatMap_cons, run_append]

theorem Accord.founded (hd : d.Accord S secret config since seen) (a : Side) (peer : PublicKey) :
    (d.ends a).Founded S (config a) (S.keyPair (secret a)) peer := by
  obtain ⟨entropy, ops, hops⟩ := hd.reached a
  rw [hops]
  exact Endpoint.founded_run S _ _ entropy ops peer

theorem key_run (hd : d.Accord S secret config since seen) (acts : List (Nat × Action)) (a : Side) :
    (d.run S acts).key S a = d.key S a ∧ d.drawn a ≤ (d.run S acts).drawn a := by
  obtain ⟨ops, hops⟩ := ends_run S d acts a
  obtain ⟨hsecrets, hdrawn⟩ := Endpoint.entropy_run (S := S) (hd.founded a (S.publicOf (secret a))).sound ops
  unfold key drawn
  rw [hops, hsecrets]
  exact ⟨rfl, hdrawn⟩

theorem KeysDiffer.before (hd : d.Accord S secret config since seen) {acts : List (Nat × Action)}
    (hkeys : (d.run S acts).KeysDiffer S secret) : d.KeysDiffer S secret := by
  have hkey := fun a => (key_run hd acts a).1
  have hdrawn := fun a => (key_run hd acts a).2
  obtain ⟨hapart, hoffer, hname⟩ := hkeys
  simp only [hkey] at hapart hoffer hname
  exact ⟨fun a i hi j hj => hapart a i (Nat.le_trans hi (hdrawn a)) j (Nat.le_trans hj (hdrawn a.other)),
    fun a i hi => hoffer a i (Nat.le_trans hi (hdrawn a)),
    fun a i hi j hj => hname a i (Nat.le_trans hi (hdrawn a)) j (Nat.le_trans hj (hdrawn a.other))⟩

/-! ### One round -/

/-- An end of a round, which uses a bond since a moment, and will agree on the next one with the key of some draw. -/
def party (S : Suite) (secret : Side → SecretKey) (config : Side → ArmConfig) (d : Dialogue)
    (longTime bond next : Side → Bond) (k : Side → Nat) (since now : Nat) (a : Side) : Renewal.Party where
  config := config a
  own := S.keyPair (secret a)
  peer := S.publicOf (secret a.other)
  longTime := longTime a
  current := bond a
  since := since
  key := S.keyPair ((d.ends a).entropy.secretAt (k a))
  bond := next a
  now := now

/-- An end that keeps the pace is ready for a round: the agreement in use is neither stale nor forgotten. -/
theorem ready_of_paced {P : Renewal.Party} (hpace : P.config.Paced retry gap start) (hseals : S.Seals)
    (hretains : P.config.Retains) (hstart : start ≤ P.since) (hbegan : P.since ≤ P.now)
    (hsoon : P.now ≤ P.since + retry + gap) (hclock : P.now < lastMoment)
    (hbonded : Agreement.bondWith S P.key P.bond.recipient = .ok P.bond) (hoffer : P.bond.recipient ≠ P.peer)
    (hname : P.current.id ≠ P.longTime.id) : P.Ready S := by
  have hinterval := hpace.interval
  have hexpiry := hpace.expiry
  have hstarted := hpace.clock
  have hpos : 0 < P.config.expireAfter.millis := by omega
  have hfresh : P.now < P.since + P.config.expireAfter.millis := by omega
  exact ⟨forwardSecrecy_of_pos hpace.enabled hpos, hbegan, hfresh, Nat.le_trans hstarted hstart, hclock,
    hretains, hseals, hbonded, hoffer, hname⟩

/-- When a round begins, the agreement in use is good, and the next one can be made. -/
theorem Accord.matched (hcommutes : S.Commutes) (hseals : S.Seals) (hcontributes : S.Contributes)
    (hpace : ∀ a, (config a).Paced retry gap start) (hretains : ∀ a, (config a).Retains)
    (hd : d.Accord S secret config since seen) (hkeys : d.KeysDiffer S secret) (hstart : start ≤ since)
    (hretry : seen ≤ since + retry) {now : Nat} (hnow : since ≤ seen ∧ seen ≤ now ∧ now ≤ seen + gap)
    (hclock : now < lastMoment) :
    ∃ P : Side → Renewal.Party, Renewal.Matched S P (retry < now - since) now ∧
      (∀ a, (P a).Runs S seen (d.ends a).engine.events ⟨.idle, 0, [], []⟩ (d.ends a)) ∧
      ∀ a, (P a).peer = S.publicOf (secret a.other) ∧ (P a).bond.id ≠ (P a).longTime.id ∧ (P a).since = since := by
  obtain ⟨bond, hpromoted⟩ := hd.promoted
  have hfounded := fun a => hd.founded a (S.publicOf (secret a.other))
  choose i hi hseen hs using fun a => (hpromoted a).2
  have hheld : ∀ a, (d.ends a).engine.held (S.publicOf (secret a.other)) = some (i a).value := by
    intro a
    rw [Engine.held, hi a]
    rfl
  have hs' : ∀ a, (i a).value.PromotedAt (config a) (bond a) since := by
    intro a
    rw [← (hfounded a).config]
    exact hs a
  have hlong := fun a => ((hfounded a).session _ (hheld a)).2
  choose k hdrawn hoffered hnew using fun a => Renewal.exists_key (hfounded a) (hheld a)
  choose next hnext using fun a => bondWith_derives hcontributes
    (hkeys.apart a (k a) (hdrawn a) (k a.other) (hdrawn a.other))
  obtain ⟨longTime, hlongTime⟩ : ∃ longTime : Side → Bond, longTime = fun a =>
    ⟨S.publicOf (secret a.other), (i a).value.longTimeId, (i a).value.longTimePair⟩ := ⟨_, rfl⟩
  have hlong' : ∀ a, Agreement.bondWith S (S.keyPair (secret a)) (S.publicOf (secret a.other)) = .ok (longTime a) := by
    rw [hlongTime]
    exact hlong
  have hready : ∀ a, (d.party S secret config longTime bond next k since now a).Ready S := by
    intro a
    obtain ⟨hrecipient, -⟩ := bondWith_ok (hnext a)
    refine ready_of_paced (P := d.party S secret config longTime bond next k since now a) (hpace a) hseals
      (hretains a) hstart (Nat.le_trans hnow.1 hnow.2.1) ?_ hclock ?_ ?_ ?_
    · show now ≤ since + retry + gap
      omega
    · show Agreement.bondWith S _ (next a).recipient = .ok (next a)
      rw [hrecipient]
      exact hnext a
    · show (next a).recipient ≠ S.publicOf (secret a.other)
      rw [hrecipient]
      exact hkeys.offer a.other (k a.other) (hdrawn a.other)
    · show (bond a).id ≠ (longTime a).id
      rw [hlongTime]
      exact (hs' a).name
  refine ⟨d.party S secret config longTime bond next k since now, ⟨hready, ?_, fun _ => rfl, ?_⟩, ?_, ?_⟩
  · intro a
    have hback := hlong' a.other
    have hback' := hnext a.other
    rw [Side.other_other] at hback hback'
    refine ⟨rfl, ?_, bond_mirror hcommutes (hlong' a) hback, (hpromoted a).1, bond_mirror hcommutes (hnext a) hback',
      (bondWith_ok (hnext a)).1.symm⟩
    show S.publicOf (secret a.other.other) = S.publicOf (secret a)
    rw [Side.other_other]
  · intro a
    show decide ((config a).retryInterval.millis < now - since) = decide (retry < now - since)
    rw [(hpace a).interval]
  · intro a
    obtain ⟨hdeferred, houtbox, -⟩ := hd.quiet a
    refine Renewal.runs_of_promoted (hfounded a) (hi a) (hseen a) (hs' a) (congrFun hlongTime a) hnow.2.1 ?_
      ⟨hdeferred, houtbox⟩ rfl (hoffered a) (hnew a)
    intro bound hb
    have hgap : gap < bound := (hpace a).idle bound hb
    show now < seen + bound
    omega
  · intro a
    refine ⟨rfl, ?_, rfl⟩
    intro hname
    apply hkeys.name a (k a) (hdrawn a) (k a.other) (hdrawn a.other)
    have hname' : (next a).id = (longTime a).id := hname
    exact (bondWith_ok (hnext a)).2.1.trans (hname' ▸ (bondWith_ok (hlong' a)).2.1.symm)

/-- **After a round the ends are in accord again**, and the payload was read.  If the agreement was due, it was
renewed. -/
theorem Accord.round (hcommutes : S.Commutes) (hopens : S.Opens) (hseals : S.Seals) (hcontributes : S.Contributes)
    (hpace : ∀ a, (config a).Paced retry gap start) (hretains : ∀ a, (config a).Retains)
    (hd : d.Accord S secret config since seen) (hstart : start ≤ since) (hretry : seen ≤ since + retry) (r : Round)
    (hnow : since ≤ seen ∧ seen ≤ r.now ∧ r.now ≤ seen + gap)
    (hclock : r.now < lastMoment)
    (hencrypt : ∀ k n data, ∃ c, S.encrypt k n data (ArmMessage.application r.payload).encode = some c)
    (hkeys : d.KeysDiffer S secret) (hquiet : (d.run S r.actions).Quiet) :
    (d.run S r.actions).Accord S secret config (if retry < r.now - since then r.now else since) r.now ∧
      (∀ a, ((d.run S r.actions).ends a).engine.events = (d.ends a).engine.events) ∧
      (d.run S r.actions).answers = d.answers ++ [(r.payload, .ok (.application r.payload))] := by
  obtain ⟨P, hP, hruns, hparty⟩ := hd.matched hcommutes hseals hcontributes hpace hretains hkeys hstart hretry hnow
    hclock
  obtain ⟨p, hp, hfollows⟩ := Renewal.follows_round hopens r hP hruns (fun a => (hd.quiet a).2.2) hencrypt
  have hstage := hp.renewed fun a => hfollows.quiet hquiet a
  refine ⟨⟨hquiet, ?_, fun a => (P a).used (decide (retry < r.now - since)), ?_⟩,
    fun a => (hfollows.ends a).events, hfollows.answers⟩
  · intro a
    obtain ⟨entropy, ops, hops⟩ := hd.reached a
    obtain ⟨more, hmore⟩ := ends_run S d r.actions a
    exact ⟨entropy, ops ++ more, by rw [hmore, hops, Endpoint.run_append]⟩
  · intro a
    obtain ⟨hpeer, hname, hsince⟩ := hparty a
    have hmark : (P a).mark (decide (retry < r.now - since)) = if retry < r.now - since then r.now else since := by
      unfold Renewal.Party.mark
      rw [hP.now, hsince]
      by_cases hdue : retry < r.now - since <;> simp [hdue]
    have hused : ((P a).used (decide (retry < r.now - since))).id ≠ (P a).longTime.id := by
      unfold Renewal.Party.used
      split
      · exact hname
      · exact (hP.ready a).name
    have hdone := Renewal.promoted_of_runs (hfollows.ends a) (hstage a) hused
    rw [hmark, hP.now, hpeer] at hdone
    refine ⟨?_, hdone⟩
    unfold Renewal.Party.used
    split
    · exact (hP.faces a).bond
    · exact (hP.faces a).current

theorem Accord.shares (hd : d.Accord S secret config since seen) {now : Nat} (hseen : now ≤ seen)
    (hidle : ∀ a bound, (config a).sessionExpireAfter.bound? = some bound → 0 < bound)
    (hfresh : ∀ a, now < after since (config a).expireAfter.millis) : d.Shares now := by
  obtain ⟨bond, hpromoted⟩ := hd.promoted
  have hid : ∀ a, (bond a).id = (bond .left).id := by
    intro a
    cases a with
    | left => rfl
    | right => exact (hpromoted .left).1.1
  refine ⟨(bond .left).id, fun a => (bond a).pair, fun a => ⟨(hpromoted a).1.2, ?_⟩⟩
  have hend := hd.founded a (S.publicOf (secret a.other))
  obtain ⟨i, hi, htouched, hs⟩ := (hpromoted a).2
  obtain ⟨g, hg, hbond, hstale, -⟩ := hs.active
  rw [hend.config] at hstale
  have haddress : d.address a.other = S.publicOf (secret a.other) := by
    rw [Dialogue.address, Engine.address, (hd.founded a.other (S.publicOf (secret a))).identity]
    rfl
  have hlive : (d.ends a).engine.sessions.overdue i now = false := by
    rw [Cache.overdue_eq, hend.ttl]
    cases hb : (config a).sessionExpireAfter.bound? with
    | none => rfl
    | some bound =>
      have := hidle a bound hb
      simp only [Option.any_some, decide_eq_false_iff_not]
      omega
  refine ⟨i.value, g, ?_, hs.state, hg, ?_, ?_, ?_⟩
  · rw [Dialogue.session, haddress, Engine.session, Cache.peek_stored hend.sound, hi, Option.bind_some, hlive]
    rfl
  · rw [Agreement.id, hbond, ← hid a]
    rfl
  · rw [Agreement.pair, hbond]
    rfl
  · have := hfresh a
    simp only [Agreement.isStale, hstale, Option.any_some, decide_eq_false_iff_not]
    omega

/-! ### All rounds -/

/-- Rounds that follow one another with no more than a gap between them, the first one after some moment.  In each of
them what is to do is done. -/
structure Proceeds (S : Suite) (secret : Side → SecretKey) (gap start : Nat) (d : Dialogue)
    (rs : List Round) : Prop where
  times : List.IsChain (fun t t' => t ≤ t' ∧ t' ≤ t + gap) (start :: rs.map (·.now))
  encrypts : ∀ r ∈ rs, ∀ k n data, ∃ c, S.encrypt k n data (ArmMessage.application r.payload).encode = some c
  quiet : ∀ past, past <+: rs → (d.rounds S past).Quiet
  keys : (d.rounds S rs).KeysDiffer S secret

theorem Proceeds.tail {r : Round} {rs : List Round} (h : d.Proceeds S secret gap start (r :: rs)) :
    (d.run S r.actions).Proceeds S secret gap r.now rs where
  times := (List.isChain_cons_cons.1 h.times).2
  encrypts r' hr := h.encrypts r' (List.mem_cons_of_mem r hr)
  quiet past hpast := by
    have hquiet := h.quiet (r :: past) ((List.prefix_cons_inj r).2 hpast)
    rwa [rounds_cons] at hquiet
  keys := by
    have hkeys := h.keys
    rwa [rounds_cons] at hkeys

/-- What the rounds leave: no event was told, every payload was read, and after every round the ends shared an
agreement. -/
structure Kept (S : Suite) (d : Dialogue) (rs : List Round) : Prop where
  events : ∀ a, ((d.rounds S rs).ends a).engine.events = (d.ends a).engine.events
  answers : (d.rounds S rs).answers = d.answers ++ rs.map fun r => (r.payload, .ok (.application r.payload))
  shares : ∀ past r, past ++ [r] <+: rs → (d.rounds S (past ++ [r])).Shares r.now

theorem kept_nil (S : Suite) (d : Dialogue) : d.Kept S [] := by
  refine ⟨fun _ => rfl, (List.append_nil _).symm, ?_⟩
  intro past r hpast
  have hnil := List.prefix_nil.1 hpast
  exact absurd hnil (List.append_ne_nil_of_right_ne_nil past (List.cons_ne_nil r []))

theorem Kept.cons {r : Round} {rs : List Round} (h : (d.run S r.actions).Kept S rs)
    (hevents : ∀ a, ((d.run S r.actions).ends a).engine.events = (d.ends a).engine.events)
    (hanswers : (d.run S r.actions).answers = d.answers ++ [(r.payload, .ok (.application r.payload))])
    (hshares : (d.run S r.actions).Shares r.now) : d.Kept S (r :: rs) := by
  refine ⟨?_, ?_, ?_⟩
  · intro a
    rw [rounds_cons, h.events, hevents]
  · rw [rounds_cons, h.answers, hanswers, List.append_assoc]
    rfl
  · intro past r' hpast
    cases past with
    | nil =>
      obtain ⟨rfl, -⟩ := List.cons_prefix_cons.1 hpast
      rw [List.nil_append, rounds_cons]
      exact hshares
    | cons r₁ past =>
      obtain ⟨rfl, hrest⟩ := List.cons_prefix_cons.1 hpast
      rw [List.cons_append, rounds_cons]
      exact h.shares past r' hrest

/-- Rounds keep forward secrecy up from any accord that is not older than the retry interval. -/
theorem Accord.keeps (hcommutes : S.Commutes) (hopens : S.Opens) (hseals : S.Seals) (hcontributes : S.Contributes)
    (hpace : ∀ a, (config a).Paced retry gap start) (hretains : ∀ a, (config a).Retains) {rs : List Round}
    (hd : d.Accord S secret config since seen) (hstart : start ≤ since) (hsince : since ≤ seen)
    (hretry : seen ≤ since + retry) (hrs : d.Proceeds S secret gap seen rs)
    (hclock : ∀ r ∈ rs, r.now < lastMoment) : d.Kept S rs := by
  induction rs generalizing d since seen with
  | nil => exact kept_nil S d
  | cons r rs ih =>
    have hgap : seen ≤ r.now ∧ r.now ≤ seen + gap := (List.isChain_cons_cons.1 hrs.times).1
    have hroom := hclock r List.mem_cons_self
    have hquiet : (d.run S r.actions).Quiet := hrs.tail.quiet [] List.nil_prefix
    have hkeys := KeysDiffer.before hd hrs.keys
    obtain ⟨hd', hevents, hanswers⟩ := hd.round hcommutes hopens hseals hcontributes hpace hretains hstart hretry r
      ⟨hsince, hgap⟩ hroom (hrs.encrypts r List.mem_cons_self) hkeys hquiet
    -- Either the agreement was renewed just now, or it is still not older than the retry interval.
    have hage : start ≤ (if retry < r.now - since then r.now else since) ∧
        (if retry < r.now - since then r.now else since) ≤ r.now ∧
        r.now ≤ (if retry < r.now - since then r.now else since) + retry := by
      split <;> omega
    have hshares : (d.run S r.actions).Shares r.now := by
      refine hd'.shares (Nat.le_refl _) ?_ ?_
      · intro a bound hb
        exact Nat.lt_of_le_of_lt (Nat.zero_le _) ((hpace a).idle bound hb)
      · intro a
        have := (hpace a).expiry
        unfold after
        omega
    exact (ih hd' hage.1 hage.2.1 hage.2.2 hrs.tail fun r' hr => hclock r' (List.mem_cons_of_mem r hr)).cons hevents
      hanswers hshares

/-- **Renewal keeps forward secrecy up.**  Two ends have promoted one agreement at the same moment, and nothing is left
to do.  Their retry intervals are the same, a lifetime is longer than that and the gap between two rounds together, no
retention is shorter than a lifetime, and no round takes place at the last moment of the clock.  Then, however many
rounds follow, no end tells of long-time encryption or anything else, every payload is read as it was sent, and after
every round both ends encrypt under one agreement that is not stale. -/
theorem renewal_keeps (hcommutes : S.Commutes) (hopens : S.Opens) (hseals : S.Seals) (hcontributes : S.Contributes)
    (secret : Side → SecretKey) (config : Side → ArmConfig) (retry gap start : Nat)
    (hpace : ∀ a, (config a).Paced retry gap start) (hretains : ∀ a, (config a).Retains)
    (d : Dialogue) (hd : d.Accord S secret config start start) (rs : List Round)
    (hrs : d.Proceeds S secret gap start rs) (hclock : ∀ r ∈ rs, r.now < lastMoment) :
    (∀ a, ((d.rounds S rs).ends a).engine.events = (d.ends a).engine.events) ∧
      (d.rounds S rs).answers = d.answers ++ rs.map (fun r => (r.payload, .ok (.application r.payload))) ∧
      ∀ past r, past ++ [r] <+: rs → (d.rounds S (past ++ [r])).Shares r.now := by
  have hkept := hd.keeps hcommutes hopens hseals hcontributes hpace hretains (Nat.le_refl _) (Nat.le_refl _)
    (Nat.le_add_right _ _) hrs hclock
  exact ⟨hkept.events, hkept.answers, hkept.shares⟩

/-! ### Rounds to try -/

def streams (a : Side) : Entropy := Textbook.counting (if a = .left then 11 else 31)

def acquainted (config : Side → ArmConfig) (now : Nat) : Dialogue :=
  (Dialogue.start Textbook.suite secrets config streams).run Textbook.suite (exchange.map fun act => (now, act.2))

def bond (d : Dialogue) (a : Side) : Bond :=
  ((((d.ends a).engine.held (d.address a.other)).bind (·.active)).bind (·.bond)).getD default

/-- Rounds that follow the handshake as they do in `renewal_keeps`, but maybe at the end of the clock, with a retention
that wraps, or with ends that renew in their own time. -/
structure Tried (config : Side → ArmConfig) (gap now : Nat) (rs : List Round) : Prop where
  paced : ∀ a, (config a).Paced (config a).retryInterval.millis gap now
  accord : (acquainted config now).Accord Textbook.suite secrets config now now
  proceeds : (acquainted config now).Proceeds Textbook.suite secrets gap now rs

theorem tried {config : Side → ArmConfig} {gap now : Nat} {rs : List Round}
    (hpaced : ∀ a, (config a).Paced (config a).retryInterval.millis gap now)
    (htimes : List.IsChain (fun t t' => t ≤ t' ∧ t' ≤ t + gap) (now :: rs.map (·.now)))
    (hruns : (∀ a, (((acquainted config now).bond a.other).id = ((acquainted config now).bond a).id ∧
          ((acquainted config now).bond a.other).pair = ((acquainted config now).bond a).pair.swap) ∧
        ((acquainted config now).ends a).PromotedAt (Textbook.suite.publicOf (secrets a.other))
          ((acquainted config now).bond a) now now) ∧
      (∀ past ∈ rs.inits, ((acquainted config now).rounds Textbook.suite past).Quiet) ∧
      ((acquainted config now).rounds Textbook.suite rs).KeysDiffer Textbook.suite secrets) :
    Tried config gap now rs := by
  obtain ⟨hpromoted, hquiet, hkeys⟩ := hruns
  refine ⟨hpaced, ⟨?_, ?_, (acquainted config now).bond, hpromoted⟩, htimes, fun _ _ _ _ _ => ⟨_, rfl⟩, ?_, hkeys⟩
  · rw [← rounds_nil Textbook.suite (acquainted config now)]
    exact hquiet [] ((List.mem_inits [] rs).2 List.nil_prefix)
  · intro a
    obtain ⟨ops, hops⟩ := ends_run Textbook.suite (Dialogue.start Textbook.suite secrets config streams)
      (exchange.map fun act => (now, act.2)) a
    exact ⟨streams a, ops, hops⟩
  · intro past hpast
    exact hquiet past ((List.mem_inits past rs).2 hpast)

/-- A round too early for a renewal, one in which both ends ask for it, and one in which the end that answers asks once
more before it is acknowledged. -/
def visits : List Round :=
  [⟨305000, .left, [1], [.runDeferred .left, .runDeferred .right]⟩,
    ⟨320000, .right, [2], [.runDeferred .left, .runDeferred .right, .collect .left, .collect .right, .deliver .left,
      .deliver .right, .runDeferred .left, .runDeferred .right, .collect .left, .collect .right, .deliver .left,
      .deliver .right, .runDeferred .left, .runDeferred .right]⟩,
    ⟨600000, .left, [3], [.runDeferred .left, .collect .left, .deliver .right, .runDeferred .right, .collect .right,
      .deliver .left, .deliver .left, .deliver .left, .runDeferred .left, .collect .left, .deliver .right,
      .deliver .right, .runDeferred .right]⟩]

theorem tried_visits : Tried (fun _ => {}) 280000 300000 visits :=
  tried (by decide +kernel) (by decide) (by decide +kernel)

/-- Three rounds after the handshake, forward secrecy has been kept up. -/
theorem renewal_keeps_visits :
    (∀ a, (((acquainted (fun _ => {}) 300000).rounds Textbook.suite visits).ends a).engine.events =
        ((acquainted (fun _ => {}) 300000).ends a).engine.events) ∧
      ((acquainted (fun _ => {}) 300000).rounds Textbook.suite visits).answers =
        (acquainted (fun _ => {}) 300000).answers ++ visits.map (fun r => (r.payload, .ok (.application r.payload))) ∧
      ∀ past r, past ++ [r] <+: visits →
        ((acquainted (fun _ => {}) 300000).rounds Textbook.suite (past ++ [r])).Shares r.now :=
  renewal_keeps Textbook.suite_commutes Textbook.suite_opens Textbook.suite_seals Textbook.suite_contributes secrets
    (fun _ => {}) 10000 280000 300000 tried_visits.paced (by decide) (acquainted (fun _ => {}) 300000)
    tried_visits.accord visits tried_visits.proceeds (by decide)

def lastVisit : List Round := [⟨2 ^ 64 - 1, .left, [2], [.runDeferred .left, .runDeferred .right]⟩]

/-- An end that encrypts under an agreement nearly forever, but whose retention has wrapped: it can decrypt under it for
one millisecond. -/
def wrapped : ArmConfig := { expireAfter := .ofMillis (2 ^ 64 - 10000), retryInterval := .ofMillis 10001 }

def wrappedVisit : List Round := [⟨2 ^ 64 - 9998, .left, [2], [.runDeferred .left, .runDeferred .right]⟩]

def uneven (a : Side) : ArmConfig := { retryInterval := .ofSeconds (if a = .left then 10 else 20) }

/-- The left end asks for a renewal in the first round, and the right end in the second one. -/
def unevenVisits : List Round :=
  [⟨315000, .left, [2], [.runDeferred .left, .collect .left, .deliver .right, .runDeferred .right, .collect .right,
      .deliver .left, .runDeferred .left]⟩,
    ⟨321000, .left, [3], [.runDeferred .left, .runDeferred .right, .collect .right, .deliver .left, .runDeferred .left,
      .collect .left, .deliver .right, .runDeferred .right]⟩]

theorem Shares.same {now : Nat} (h : d.Shares now) (a : Side) :
    ((d.session a.other now).bind (·.active)).bind (·.id) = ((d.session a now).bind (·.active)).bind (·.id) := by
  obtain ⟨id, pair, hends⟩ := h
  have hid : ∀ a, ((d.session a now).bind (·.active)).bind (·.id) = some id := by
    intro a
    obtain ⟨-, s, g, hs, -, hg, hname, -, -⟩ := hends a
    rw [hs, Option.bind_some, hg, Option.bind_some, hname]
  rw [hid, hid]

/-- **Renewal lapses at the end of the clock, with a retention that wraps, and between ends that do not keep pace.**  If
the ends promoted an agreement one moment before the last one of the clock, it is stale at the last moment, and both
tell that they fall back to long-time encryption.  If the retention has wrapped, one end may encrypt under an agreement
that the other one keeps no more.  If the left end asked for a renewal in vain, because the right end did not send a
key yet, it answers the right end's request with an acknowledgement alone: after that round the right end uses the next
agreement, and the left end the one before. -/
theorem renewal_lapses :
    (Tried (fun _ => {}) 1 (2 ^ 64 - 2) lastVisit ∧
      ∀ a, (((acquainted (fun _ => {}) (2 ^ 64 - 2)).rounds Textbook.suite lastVisit).ends a).engine.events =
        ((acquainted (fun _ => {}) (2 ^ 64 - 2)).ends a).engine.events ++
          [.longTimeEncryption (Textbook.suite.publicOf (secrets a.other))]) ∧
    (Tried (fun _ => wrapped) 2 (2 ^ 64 - 10000) wrappedVisit ∧
      ∃ id, ((acquainted (fun _ => wrapped) (2 ^ 64 - 10000)).rounds Textbook.suite wrappedVisit).answers =
        (acquainted (fun _ => wrapped) (2 ^ 64 - 10000)).answers ++ [([2], .error (.unknownAgreementId id))]) ∧
    Tried uneven 15000 300000 unevenVisits ∧
      ¬ ((acquainted uneven 300000).rounds Textbook.suite unevenVisits).Shares 321000 := by
  refine ⟨⟨tried (by decide +kernel) (by decide) (by decide +kernel), by decide +kernel⟩,
    ⟨tried (by decide +kernel) (by decide) (by decide +kernel),
      ((acquainted (fun _ => wrapped) (2 ^ 64 - 10000)).bond .left).id, by decide +kernel⟩,
    tried (by decide +kernel) (by decide) (by decide +kernel), ?_⟩
  intro hshares
  exact absurd (hshares.same .left) (by decide +kernel)

end Dialogue

end Overlay
