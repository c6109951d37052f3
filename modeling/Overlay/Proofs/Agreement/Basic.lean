import Overlay.Agreement.Basic
import Overlay.Proofs.Crypto.Suite

/-!
# Bonds

A bond is determined by our key pair and the peer's key (`bondWith_ok`), and an agreement whose bond is the
one of its own keys is well bonded.  Where secrets commute, the two ends of an agreement have bonds of one
name, and the session keys of one are those of the other, seen from there (`bond_mirror`).
-/

namespace Overlay

/-- The name of an agreement, the peer's key and the session keys are all there and follow from the two
keys, or none of them is there. -/
def Agreement.WellBonded (S : Suite) (a : Agreement) : Prop :=
  (a.recipient = none ∧ a.id = none ∧ a.pair = none) ∨
    ∃ key id pair, a.recipient = some key ∧ a.id = some id ∧ a.pair = some pair ∧
      S.agreementId a.keyPair.publicKey key = .ok id ∧ S.deriveSessionPair a.keyPair key = .ok pair

theorem wellBonded_ofKeyPair (S : Suite) (p : KeyPair) : (Agreement.ofKeyPair p).WellBonded S :=
  Or.inl ⟨rfl, rfl, rfl⟩

theorem bondWith_ok {S : Suite} {own : KeyPair} {key : PublicKey} {b : Bond}
    (h : Agreement.bondWith S own key = .ok b) :
    b.recipient = key ∧ S.agreementId own.publicKey key = .ok b.id ∧
      S.deriveSessionPair own key = .ok b.pair := by
  unfold Agreement.bondWith at h
  cases hid : S.agreementId own.publicKey key with
  | error e =>
    rw [hid] at h
    cases h
  | ok id =>
    rw [hid] at h
    cases hp : S.deriveSessionPair own key with
    | error e =>
      rw [hp] at h
      cases h
    | ok pair =>
      rw [hp] at h
      cases h
      exact ⟨rfl, rfl, rfl⟩

theorem Agreement.setRecipient_ok {S : Suite} {a : Agreement} {key : PublicKey} {b : Bond}
    (h : bondWith S a.keyPair key = .ok b) : a.setRecipient S key = (.ok (), { a with bond := some b }) := by
  rw [setRecipient, h]

/-- An agreement that cannot be bonded with a key is left as it was. -/
theorem Agreement.setRecipient_error {S : Suite} {a : Agreement} {key : PublicKey} {e : ArmError}
    (h : bondWith S a.keyPair key = .error e) : a.setRecipient S key = (.error e, a) := by
  rw [setRecipient, h]

theorem Agreement.withRecipient_eq (S : Suite) (a : Agreement) (key : PublicKey) :
    a.withRecipient S key = (bondWith S a.keyPair key).map fun b => { a with bond := some b } := by
  rw [withRecipient]
  cases hb : bondWith S a.keyPair key with
  | error e =>
    rw [setRecipient_error hb]
    rfl
  | ok b =>
    rw [setRecipient_ok hb]
    rfl

/-- Two different honest keys can be bonded. -/
theorem bondWith_derives {S : Suite} (hS : S.Contributes) {own peer : SecretKey}
    (h : S.publicOf own ≠ S.publicOf peer) :
    ∃ b, Agreement.bondWith S (S.keyPair own) (S.publicOf peer) = .ok b := by
  obtain ⟨id, pair, hid, hpair⟩ := Suite.derives hS h
  have hid' : S.agreementId (S.keyPair own).publicKey (S.publicOf peer) = .ok id := hid
  unfold Agreement.bondWith
  rw [hid', hpair]
  exact ⟨_, rfl⟩

theorem wellBonded_bond {S : Suite} {a : Agreement} {key : PublicKey} {b : Bond}
    (h : Agreement.bondWith S a.keyPair key = .ok b) :
    ({ a with bond := some b } : Agreement).WellBonded S := by
  obtain ⟨-, hid, hpair⟩ := bondWith_ok h
  exact Or.inr ⟨b.recipient, b.id, b.pair, rfl, rfl, rfl, by rw [(bondWith_ok h).1]; exact hid,
    by rw [(bondWith_ok h).1]; exact hpair⟩

/-- The bond of the other end has the same name, and the same session keys, seen from there. -/
theorem bondWith_swap {S : Suite} {s s' : SecretKey} {b : Bond}
    (hshared : S.shared s (S.publicOf s') = S.shared s' (S.publicOf s))
    (h : Agreement.bondWith S (S.keyPair s) (S.publicOf s') = .ok b) :
    Agreement.bondWith S (S.keyPair s') (S.publicOf s) = .ok ⟨S.publicOf s, b.id, b.pair.swap⟩ := by
  obtain ⟨-, hid, hpair⟩ := bondWith_ok h
  have hid' : S.agreementId (S.keyPair s').publicKey (S.publicOf s) = .ok b.id :=
    (S.agreementId_comm _ _).trans hid
  unfold Agreement.bondWith
  rw [hid', Suite.deriveSessionPair_swap hshared hpair]

/-- **The two ends of an agreement mirror each other.**  A bond of one end's key with the other end's key,
and a bond of the other end's key with this one's, have one name, and mirrored session keys. -/
theorem bond_mirror {S : Suite} (hS : S.Commutes) {s s' : SecretKey} {b b' : Bond}
    (h : Agreement.bondWith S (S.keyPair s) (S.publicOf s') = .ok b)
    (h' : Agreement.bondWith S (S.keyPair s') (S.publicOf s) = .ok b') :
    b'.id = b.id ∧ b'.pair = b.pair.swap := by
  cases (bondWith_swap (hS s s') h).symm.trans h'
  exact ⟨rfl, rfl⟩

end Overlay
