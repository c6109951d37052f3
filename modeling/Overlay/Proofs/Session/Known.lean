import Overlay.Proofs.Agreement.Basic
import Overlay.Proofs.Cache.Stored
import Overlay.Proofs.Session.Notice

/-!
# Where keys and names come from

One end of a conversation makes its own keys and hears of the rest.  A `Lore` says which keys are the other
end's and which agreements the other end is known to hold; a session that is `Known` has nothing else: its own
keys were drawn here, its bonds are with keys of the other end, and it has promoted no agreement that the other
end does not know of.

Every agreement that a move leaves in a session was there before, up to its deadline, or has a fresh key, or is
newly bonded with a key that was heard (`Move.origin`); and it promotes only agreements whose names were heard
(`Move.promoted`).  So sessions stay known as long as what is heard is true (`Moves.known`).
-/

namespace Overlay

/-- A session holds an agreement, in one of its slots or for decryption. -/
def Session.Has (s : Session) (g : Agreement) : Prop :=
  s.inactive = some g ∨ s.active = some g ∨ ∃ id i, s.initialized.stored id = some i ∧ i.value = g

def Session.agreements (s : Session) : List Agreement :=
  s.inactive.toList ++ s.active.toList ++ s.initialized.recency.items.map (·.value)

theorem Session.Has.mem_agreements {s : Session} {g : Agreement} (h : s.Has g) : g ∈ s.agreements := by
  unfold agreements
  rcases h with h | h | ⟨id, i, hi, rfl⟩
  · exact List.mem_append_left _ (List.mem_append_left _ (Option.mem_toList.2 h))
  · exact List.mem_append_left _ (List.mem_append_right _ (Option.mem_toList.2 h))
  · exact List.mem_append_right _ (List.mem_map_of_mem (List.mem_of_find?_eq_some hi))

/-- A session has promoted an agreement of a name: it is the active one, or kept for decryption. -/
def Session.Promoted (s : Session) (id : AgreementId) (g : Agreement) : Prop :=
  (s.active = some g ∧ g.id = some id) ∨ ∃ i, s.initialized.stored id = some i ∧ i.value = g

theorem Session.Promoted.has {s : Session} {id : AgreementId} {g : Agreement} (h : s.Promoted id g) :
    s.Has g := by
  rcases h with ⟨h, -⟩ | ⟨i, hi, hv⟩
  · exact Or.inr (Or.inl h)
  · exact Or.inr (Or.inr ⟨id, i, hi, hv⟩)

structure Session.Within (s' s : Session) : Prop where
  has : ∀ g, s'.Has g → s.Has g
  promoted : ∀ id g, s'.Promoted id g → s.Promoted id g

/-- A key pair is one of those drawn from a source, from draw number `first` on. -/
def Entropy.Drew (S : Suite) (first : Nat) (e : Entropy) (p : KeyPair) : Prop :=
  ∃ i, first ≤ i ∧ i < e.secretsDrawn ∧ p = S.keyPair (e.secretAt i)

theorem Entropy.Drew.mono {S : Suite} {first : Nat} {e e' : Entropy} {p : KeyPair}
    (h : e.Drew S first p) (hs : e'.secretAt = e.secretAt) (hle : e.secretsDrawn ≤ e'.secretsDrawn) :
    e'.Drew S first p := by
  obtain ⟨i, hfirst, hlt, hp⟩ := h
  exact ⟨i, hfirst, Nat.lt_of_lt_of_le hlt hle, by rw [hs]; exact hp⟩

theorem Entropy.Drew.keyPair {S : Suite} {first : Nat} {e : Entropy} {p : KeyPair} (h : e.Drew S first p) :
    ∃ secret, p = S.keyPair secret := by
  obtain ⟨i, -, -, hp⟩ := h
  exact ⟨e.secretAt i, hp⟩

/-- What one end of a conversation can know of the other. -/
structure Lore where
  /-- The first of our own draws that counts. -/
  first : Nat
  theirs : PublicKey → Prop
  names : AgreementId → Prop

/-- All that a session has was drawn here or heard from the other end. -/
structure Session.Known (S : Suite) (own : KeyPair) (peer : PublicKey) (l : Lore) (e : Entropy)
    (s : Session) : Prop where
  longTime : S.agreementId own.publicKey peer = .ok s.longTimeId
  sound : s.initialized.Sound
  keys : ∀ g, s.Has g → e.Drew S l.first g.keyPair
  bonds : ∀ g b, s.Has g → g.bond = some b →
    l.theirs b.recipient ∧ Agreement.bondWith S g.keyPair b.recipient = .ok b
  named : ∀ id g, s.Promoted id g → g.id = some id
  promoted : ∀ id g, s.Promoted id g → l.names id

/-- A message is the offer of a key that was drawn here, under the long-time agreement. -/
def Lore.Offers (S : Suite) (own : KeyPair) (peer : PublicKey) (l : Lore) (e : Entropy)
    (m : ArmedMessage) : Prop :=
  ∃ key p, e.Drew S l.first p ∧ S.agreementId own.publicKey peer = .ok m.agreementId ∧
    S.encrypt key m.nonce (associatedData own.publicKey peer m.agreementId)
      (ArmMessage.keyExchange p.publicKey).encode = some m.ciphertext

structure Turn.Known (S : Suite) (own : KeyPair) (peer : PublicKey) (l : Lore) (t : Turn) : Prop where
  drawn : l.first ≤ t.entropy.secretsDrawn
  session : t.session.Known S own peer l t.entropy
  outbox : ∀ m ∈ t.outbox, l.Offers S own peer t.entropy m

namespace Session.Known

variable {S : Suite} {own : KeyPair} {peer : PublicKey} {l : Lore} {e e' : Entropy} {s : Session}

theorem weaken {l' : Lore} (h : s.Known S own peer l e) (hfirst : l'.first = l.first)
    (htheirs : ∀ k, l.theirs k → l'.theirs k) (hnames : ∀ id, l.names id → l'.names id) :
    s.Known S own peer l' e :=
  ⟨h.longTime, h.sound, fun g hg => hfirst ▸ h.keys g hg,
    fun g b hg hb => ⟨htheirs _ (h.bonds g b hg hb).1, (h.bonds g b hg hb).2⟩, h.named,
    fun id g hp => hnames id (h.promoted id g hp)⟩

theorem fresh {id : AgreementId} (hid : S.agreementId own.publicKey peer = .ok id) (pair : SessionPair)
    (policy : ExpiryPolicy) (ttl : Option Nat) (maxSize : Nat) (exchange renewal : Option Nat)
    (state : EncryptionState) :
    Session.Known S own peer l e
      { longTimeId := id, longTimePair := pair, initialized := .empty policy ttl maxSize,
        active := none, inactive := none, lastKeyExchangeAt := exchange, lastRenewAttemptAt := renewal,
        state := state } := by
  have hnone : ∀ g, ¬ Session.Has
      { longTimeId := id, longTimePair := pair, initialized := .empty policy ttl maxSize,
        active := none, inactive := none, lastKeyExchangeAt := exchange, lastRenewAttemptAt := renewal,
        state := state } g := by
    rintro g (h | h | ⟨id, i, h, -⟩) <;> cases h
  exact ⟨hid, Cache.sound_empty _ _ _, fun g hg => absurd hg (hnone g),
    fun g b hg => absurd hg (hnone g), fun _ g hg => absurd hg.has (hnone g),
    fun _ g hg => absurd hg.has (hnone g)⟩

end Session.Known

theorem Lore.Offers.mono {S : Suite} {own : KeyPair} {peer : PublicKey} {l : Lore} {e e' : Entropy}
    {m : ArmedMessage} (h : l.Offers S own peer e m) (hs : e'.secretAt = e.secretAt)
    (hle : e.secretsDrawn ≤ e'.secretsDrawn) : l.Offers S own peer e' m := by
  obtain ⟨key, p, hp, hid, hm⟩ := h
  exact ⟨key, p, hp.mono hs hle, hid, hm⟩

/-- What is heard is true: keys are the other end's, and names are of agreements it holds. -/
structure Hearing.Sincere (h : Hearing) (S : Suite) (own : KeyPair) (peer : PublicKey) (l : Lore) :
    Prop where
  key : own.publicKey ≠ peer → ∀ k, h.key k → l.theirs k
  name : ∀ longTime id, S.agreementId own.publicKey peer = .ok longTime → h.name longTime id →
    l.names id

namespace Turn

variable {x : Context} {h : Hearing} {t t' : Turn}

theorem stored_consult {c : Cache AgreementId Agreement} (hc : c.Sound) {id id' : AgreementId} {now : Nat}
    {i : Item AgreementId Agreement} (hi : (c.get id now).2.stored id' = some i) :
    ∃ j, c.stored id' = some j ∧ i.value = j.value := by
  rw [Cache.stored_get hc] at hi
  by_cases hid : id' = id
  · subst hid
    rw [if_pos rfl, Option.bind_eq_some_iff] at hi
    obtain ⟨j, hj, hji⟩ := hi
    split at hji
    · cases hji
    · cases hji
      exact ⟨j, hj, Recency.used_value _ j now⟩
  · rw [if_neg hid] at hi
    exact ⟨i, hi, rfl⟩

theorem within_drop (x : Context) (hs : t.session.initialized.Sound) {active : Option Agreement}
    (ha : ∀ g, active = some g → t.session.active = some g) (o : Option AgreementId) :
    ((t.withSession { t.session with
      active := active
      initialized := discard t.session.initialized o }).resumeLongTime x).session.Within t.session := by
  rw [resumeLongTime_session]
  constructor
  · rintro g (hg | hg | ⟨id, i, hi, hv⟩)
    · exact Or.inl hg
    · exact Or.inr (Or.inl (ha g hg))
    · exact Or.inr (Or.inr ⟨id, i, stored_discard hs hi, hv⟩)
  · rintro id g (⟨hg, hid⟩ | ⟨i, hi, hv⟩)
    · exact Or.inl ⟨ha g hg, hid⟩
    · exact Or.inr ⟨i, stored_discard hs hi, hv⟩

theorem within_evict (x : Context) (hs : t.session.initialized.Sound) (id : AgreementId) :
    (t.evictAgreement x id).session.Within t.session :=
  within_drop x hs (fun _ hg => (Option.filter_eq_some_iff.1 hg).1) (some id)

theorem within_consult {s : Session} (hs : s.initialized.Sound) (id : AgreementId) (now : Nat) :
    Session.Within { s with initialized := (s.initialized.get id now).2 } s := by
  constructor
  · rintro g (hg | hg | ⟨id', i, hi, hv⟩)
    · exact Or.inl hg
    · exact Or.inr (Or.inl hg)
    · obtain ⟨j, hj, hij⟩ := stored_consult hs hi
      exact Or.inr (Or.inr ⟨id', j, hj, hij.symm.trans hv⟩)
  · rintro id' g (hg | ⟨i, hi, hv⟩)
    · exact Or.inl hg
    · obtain ⟨j, hj, hij⟩ := stored_consult hs hi
      exact Or.inr ⟨j, hj, hij.symm.trans hv⟩

theorem Move.sound (hm : Move x h t t') (hs : t.session.initialized.Sound) :
    t'.session.initialized.Sound := by
  cases hm with
  | promote a id hid ha hi =>
    rw [promote_of_id ha hi]
    exact hs.insert id _ _
  | consult id => exact hs.get id x.now
  | evict id =>
    rw [evictAgreement, resumeLongTime_session]
    exact hs.remove id
  | retire id =>
    rw [resumeLongTime_session]
    exact sound_discard hs id
  | _ => exact hs

theorem Move.entropy (hm : Move x h t t') :
    t'.entropy.secretAt = t.entropy.secretAt ∧ t.entropy.secretsDrawn ≤ t'.entropy.secretsDrawn := by
  cases hm with
  | offer hn => exact ⟨rfl, Nat.le_succ _⟩
  | promote a id hid ha hi =>
    rw [promote_of_id ha hi]
    exact ⟨rfl, Nat.le_refl _⟩
  | evict id =>
    rw [evictAgreement, resumeLongTime_entropy]
    exact ⟨rfl, Nat.le_refl _⟩
  | retire id =>
    rw [resumeLongTime_entropy]
    exact ⟨rfl, Nat.le_refl _⟩
  | _ => exact ⟨rfl, Nat.le_refl _⟩

theorem Moves.entropy (hm : Moves x h t t') :
    t'.entropy.secretAt = t.entropy.secretAt ∧ t.entropy.secretsDrawn ≤ t'.entropy.secretsDrawn := by
  induction hm with
  | refl => exact ⟨rfl, Nat.le_refl _⟩
  | tail _ hm ih => exact ⟨hm.entropy.1.trans ih.1, Nat.le_trans ih.2 hm.entropy.2⟩

theorem Move.longTime (hm : Move x h t t') :
    t'.session.longTimeId = t.session.longTimeId ∧ t'.session.longTimePair = t.session.longTimePair := by
  cases hm with
  | promote a id hid ha hi =>
    rw [promote_of_id ha hi]
    exact ⟨rfl, rfl⟩
  | evict id =>
    rw [evictAgreement, resumeLongTime_session]
    exact ⟨rfl, rfl⟩
  | retire id =>
    rw [resumeLongTime_session]
    exact ⟨rfl, rfl⟩
  | _ => exact ⟨rfl, rfl⟩

theorem Moves.longTime (hm : Moves x h t t') :
    t'.session.longTimeId = t.session.longTimeId ∧ t'.session.longTimePair = t.session.longTimePair := by
  induction hm with
  | refl => exact ⟨rfl, rfl⟩
  | tail _ hm ih => exact ⟨hm.longTime.1.trans ih.1, hm.longTime.2.trans ih.2⟩

/-- What an agreement in a session is made of: one that was there before, a fresh key, or a new bond with
a key that was heard. -/
inductive Origin (x : Context) (h : Hearing) (t t' : Turn) (g : Agreement) : Prop where
  | before (g₀ : Agreement) (hg : t.session.Has g₀) (hkey : g.keyPair = g₀.keyPair)
      (hbond : g.bond = g₀.bond)
  | fresh (hg : g = .ofKeyPair (x.suite.keyPair t.entropy.drawSecret.1))
      (he : t'.entropy = t.entropy.drawSecret.2)
  | bonded (g₀ : Agreement) (key : PublicKey) (b : Bond) (hg : t.session.Has g₀) (hk : h.key key)
      (hb : Agreement.bondWith x.suite g₀.keyPair key = .ok b) (heq : g = { g₀ with bond := some b })

/-- **Where the agreements of a session come from.** -/
theorem Move.origin (hm : Move x h t t') (hs : t.session.initialized.Sound) {g : Agreement}
    (hg : t'.session.Has g) : Origin x h t t' g := by
  have hsame : t.session.Has g → Origin x h t t' g := fun hg => .before g hg rfl rfl
  cases hm with
  | defer work => exact hsame hg
  | nonce => exact hsame hg
  | post a m ha hm => exact hsame hg
  | note exchange renewal => exact hsame hg
  | offer hn =>
    rcases hg with hg | hg
    · cases hg
      exact .fresh rfl rfl
    · exact hsame (Or.inr hg)
  | bond a key b hk ha hb =>
    rcases hg with hg | hg
    · cases hg
      exact .bonded a key b (Or.inl ha) hk hb rfl
    · exact hsame (Or.inr hg)
  | promote a id hid ha hi =>
    rw [promote_of_id ha hi] at hg
    rcases hg with hg | hg | ⟨id', i, hg, hv⟩
    · cases hg
    · cases hg
      exact .before a (Or.inl ha) rfl rfl
    · by_cases hid : id' = id
      · subst hid
        rw [Cache.stored_insert_self hs, Option.some.injEq] at hg
        subst hg
        subst hv
        exact .before a (Or.inl ha) rfl rfl
      · exact hsame (Or.inr (Or.inr ⟨id', i, Cache.stored_of_insert hs hid hg, hv⟩))
  | consult id => exact hsame ((within_consult hs id x.now).has g hg)
  | evict id => exact hsame ((within_evict x hs id).has g hg)
  | retire o => exact hsame ((within_drop x hs (fun _ h => by cases h) o).has g hg)

/-- Only an agreement whose name was heard is promoted, and it is kept under its own name. -/
theorem Move.promoted (hm : Move x h t t') (hs : t.session.initialized.Sound) {id : AgreementId}
    {g : Agreement} (hg : t'.session.Promoted id g) :
    (∃ g₀, t.session.Promoted id g₀ ∧ g₀.id = g.id) ∨
      h.name t.session.longTimeId id ∧ g.id = some id := by
  have hsame : t.session.Promoted id g → (∃ g₀, t.session.Promoted id g₀ ∧ g₀.id = g.id) ∨
      h.name t.session.longTimeId id ∧ g.id = some id := fun hg => Or.inl ⟨g, hg, rfl⟩
  cases hm with
  | promote a name hname ha hi =>
    rw [promote_of_id ha hi] at hg
    rcases hg with ⟨hg, hid⟩ | ⟨i, hg, hv⟩
    · cases hg
      have hname' : name = id := Option.some.inj (hi.symm.trans hid)
      exact Or.inr ⟨hname' ▸ hname, hid⟩
    · by_cases hid : id = name
      · subst hid
        rw [Cache.stored_insert_self hs, Option.some.injEq] at hg
        subst hg
        subst hv
        exact Or.inr ⟨hname, hi⟩
      · exact hsame (Or.inr ⟨i, Cache.stored_of_insert hs hid hg, hv⟩)
  | consult name => exact hsame ((within_consult hs name x.now).promoted id g hg)
  | evict name => exact hsame ((within_evict x hs name).promoted id g hg)
  | retire o => exact hsame ((within_drop x hs (fun _ h => by cases h) o).promoted id g hg)
  | _ => exact hsame hg

theorem Move.outbox (hm : Move x h t t') {m : ArmedMessage} (hout : m ∈ t'.outbox) :
    m ∈ t.outbox ∨ ∃ a, t.session.inactive = some a ∧
      Sealed x t.session.longTimeId t.session.longTimePair (.keyExchange a.keyPair.publicKey) m := by
  cases hm with
  | post a m' ha hm =>
    have hout' : m ∈ t.outbox ++ [m'] := hout
    rw [List.mem_append, List.mem_singleton] at hout'
    apply hout'.imp_right
    intro heq
    subst heq
    exact ⟨a, ha, hm⟩
  | promote a id hid ha hi =>
    rw [promote_of_id ha hi] at hout
    exact Or.inl hout
  | evict id =>
    rw [evictAgreement, resumeLongTime_outbox] at hout
    exact Or.inl hout
  | retire id =>
    rw [resumeLongTime_outbox] at hout
    exact Or.inl hout
  | _ => exact Or.inl hout

variable {l : Lore}

/-- A move of a turn that heard the truth keeps it known. -/
theorem Move.known (hm : Move x h t t') (hh : h.Sincere x.suite x.own x.peer l)
    (ht : t.Known x.suite x.own x.peer l) : t'.Known x.suite x.own x.peer l := by
  obtain ⟨hfirst, hs, hout⟩ := ht
  obtain ⟨hsecret, hdrawn⟩ := hm.entropy
  have hne := Suite.ne_of_agreementId hs.longTime
  refine ⟨Nat.le_trans hfirst hdrawn, ⟨?_, hm.sound hs.sound, ?_, ?_, ?_,
    ?_⟩, ?_⟩
  · rw [hm.longTime.1]
    exact hs.longTime
  · intro g hg
    cases hm.origin hs.sound hg with
    | before g₀ hg₀ hkey hbond =>
      rw [hkey]
      exact (hs.keys g₀ hg₀).mono hsecret hdrawn
    | fresh hg he =>
      subst hg
      rw [he]
      exact ⟨t.entropy.secretsDrawn, hfirst, Nat.lt_succ_self _, rfl⟩
    | bonded g₀ key b hg₀ hk hb heq =>
      subst heq
      exact (hs.keys g₀ hg₀).mono hsecret hdrawn
  · intro g b hg hb
    cases hm.origin hs.sound hg with
    | before g₀ hg₀ hkey hbond =>
      rw [hkey]
      exact hs.bonds g₀ b hg₀ (hbond.symm.trans hb)
    | fresh hg he =>
      subst hg
      cases hb
    | bonded g₀ key b₀ hg₀ hk hb₀ heq =>
      subst heq
      cases hb
      obtain ⟨hr, -⟩ := bondWith_ok hb₀
      rw [hr]
      exact ⟨hh.key hne key hk, hb₀⟩
  · intro id g hg
    rcases hm.promoted hs.sound hg with ⟨g₀, hg₀, hid⟩ | ⟨-, hid⟩
    · exact hid.symm.trans (hs.named id g₀ hg₀)
    · exact hid
  · intro id g hg
    rcases hm.promoted hs.sound hg with ⟨g₀, hg₀, -⟩ | ⟨hname, -⟩
    · exact hs.promoted id g₀ hg₀
    · exact hh.name t.session.longTimeId id hs.longTime hname
  · intro m hm'
    rcases hm.outbox hm' with hold | ⟨a, ha, hsealed⟩
    · exact (hout m hold).mono hsecret hdrawn
    · have hkey := (hs.keys a (Or.inl ha)).mono hsecret hdrawn
      refine ⟨t.session.longTimePair.tx, a.keyPair, hkey, ?_, ?_⟩
      · rw [hsealed.name]
        exact hs.longTime
      · rw [hsealed.name]
        exact hsealed.encrypted

theorem Moves.known (hm : Moves x h t t') (hh : h.Sincere x.suite x.own x.peer l)
    (ht : t.Known x.suite x.own x.peer l) : t'.Known x.suite x.own x.peer l := by
  induction hm with
  | refl => exact ht
  | tail _ hm ih => exact hm.known hh ih

/-- A payload is sent under the long-time agreement, or under the active one. -/
theorem armOutbound_ok {payload : Bytes} {m : ArmedMessage}
    (hr : t.armOutbound x payload = (.ok m, t')) :
    ∃ id pair, t'.session = t.session ∧ Sealed x id pair (.application payload) m ∧
      (id = t.session.longTimeId ∨
        ∃ g b, t.session.active = some g ∧ g.bond = some b ∧ id = b.id ∧ pair = b.pair) := by
  have hdefer : ∀ (b : Bool) (work : Deferred) (t : Turn),
      (if b then t.defer work else t).session = t.session := by
    intro b work t
    cases b <;> rfl
  simp only [armOutbound, hdefer] at hr
  cases hb : activeBond x t.session with
  | some bond =>
    simp only [hb] at hr
    refine ⟨bond.id, bond.pair, ?_, sealMessage_ok (congrArg Prod.fst hr), Or.inr ?_⟩
    · have ht : _ = t' := congrArg Prod.snd hr
      rw [← ht, session_sealMessage, hdefer]
    · obtain ⟨g, hg, hgb⟩ := Option.bind_eq_some_iff.1 hb
      exact ⟨g, bond, (Option.filter_eq_some_iff.1 hg).1, hgb, rfl, rfl⟩
  | none =>
    simp only [hb, sealLongTime, hdefer] at hr
    refine ⟨_, _, ?_, sealMessage_ok (congrArg Prod.fst hr), Or.inl rfl⟩
    have ht : _ = t' := congrArg Prod.snd hr
    rw [← ht, session_sealMessage, hdefer, hdefer]

end Turn

end Overlay
