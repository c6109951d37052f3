import Overlay.Proofs.Agreement.Basic
import Overlay.Proofs.Crypto.Hkdf
import Overlay.Proofs.Crypto.Key
import Overlay.Proofs.Session.Move

/-!
# Two owners of keys come to the same agreement

Two owners of keys that share one secret come to agreements of one name with mirrored session keys, or to none, and
then for the same reason (`Suite.agreement_mutual`).  Everything that enters is the same from both ends: the name is the
digest of the two keys joined, the key material has the same secret and the same context, and the two reasons to
refuse (`Suite.Refuses`) do not tell one end from the other.  Only which half of the material an end sends under
depends on the end, by the order of the keys (`Suite.Halves`).

Joined keys tell which two keys they are, so agreements between different keys have different names, unless the digest
has one value for two different strings of 64 octets (`Suite.Collision`, `Suite.agreementId_inj`).

A peer's key is attached in place, and an agreement that is refused it is left as it was
(`Agreement.setRecipient_cases`).
-/

namespace Overlay

namespace Suite

variable (S : Suite)

/-- Two different strings of 64 octets with one digest. -/
structure Collision (x y : Bytes) : Prop where
  length_left : x.length = 64
  length_right : y.length = 64
  ne : x ≠ y
  digest : S.digest x = S.digest y

def keyMaterial (secret : Block 32) (context : Bytes) : Bytes :=
  (S.expand secret context).1.toBytes ++ (S.expand secret context).2.toBytes

/-- The owner of the lower key sends under the first half of some key material and the owner of the higher key under the
second half; each receives under the half that the other one sends under. -/
structure Halves (material : Bytes) (lower higher : SessionPair) : Prop where
  length : material.length = 64
  upward : lower.tx.block.toBytes = material.take 32
  downward : higher.tx.block.toBytes = material.drop 32
  mirrored : higher = lower.swap

/-- Why there is no agreement between a key pair and a peer's key. -/
inductive Refuses (own : KeyPair) (peer : PublicKey) : ArmError → Prop where
  | equal : own.publicKey = peer → Refuses own peer (.invalidArgument .equalKeys)
  | zero : own.publicKey ≠ peer → S.shared own.secretKey peer = Block.filled 32 0 →
    Refuses own peer (.crypto .keyDerivationFailed)

variable {S} {a b c d : PublicKey} {id id' : AgreementId} {own : KeyPair} {peer : PublicKey} {pair : SessionPair}

/-! ### Names -/

theorem agreementId_ok : S.agreementId a b = .ok id ↔ a ≠ b ∧ id = ⟨S.digest (PublicKey.joined a b)⟩ := by
  unfold agreementId
  split
  · rename_i heq
    exact ⟨nofun, fun h => absurd heq h.1⟩
  · rename_i hne
    constructor
    · intro h
      cases h
      exact ⟨hne, rfl⟩
    · rintro ⟨-, rfl⟩
      rfl

theorem agreementId_error {e : ArmError} :
    S.agreementId a b = .error e ↔ a = b ∧ e = .invalidArgument .equalKeys := by
  unfold agreementId
  split
  · rename_i heq
    constructor
    · intro h
      cases h
      exact ⟨heq, rfl⟩
    · rintro ⟨-, rfl⟩
      rfl
  · rename_i hne
    exact ⟨nofun, fun h => absurd h.1 hne⟩

/-- Two agreements have one name exactly if they are between the same two keys, or the digest collides on them. -/
theorem agreementId_inj (h : S.agreementId a b = .ok id) (h' : S.agreementId c d = .ok id') :
    id = id' ↔ s(a, b) = s(c, d) ∨ S.Collision (PublicKey.joined a b) (PublicKey.joined c d) := by
  obtain ⟨-, rfl⟩ := agreementId_ok.1 h
  obtain ⟨-, rfl⟩ := agreementId_ok.1 h'
  rw [← PublicKey.joined_inj, AgreementId.mk.injEq]
  constructor
  · intro hdigest
    by_cases heq : PublicKey.joined a b = PublicKey.joined c d
    · exact .inl heq
    · exact .inr ⟨PublicKey.length_joined a b, PublicKey.length_joined c d, heq, hdigest⟩
  · rintro (heq | hcollision)
    · rw [heq]
    · exact hcollision.digest

/-! ### Session keys -/

theorem standard_keyMaterial (secret : Block 32) (context : Bytes) :
    standard.keyMaterial secret context = Crypto.keyMaterial secret context 64 :=
  Crypto.hkdf_halves secret context

theorem halves_keyMaterial (secret : Block 32) (context : Bytes) :
    Halves (S.keyMaterial secret context) ⟨⟨(S.expand secret context).2⟩, ⟨(S.expand secret context).1⟩⟩
      ⟨⟨(S.expand secret context).1⟩, ⟨(S.expand secret context).2⟩⟩ where
  length := by rw [keyMaterial, List.length_append, Block.length_toBytes, Block.length_toBytes]
  upward := (List.take_left' (Block.length_toBytes _)).symm
  downward := (List.drop_left' (Block.length_toBytes _)).symm
  mirrored := rfl

theorem deriveSessionPair_error {e : CryptoError} (hne : own.publicKey ≠ peer) :
    S.deriveSessionPair own peer = .error e ↔
      S.shared own.secretKey peer = Block.filled 32 0 ∧ e = .keyDerivationFailed := by
  unfold deriveSessionPair
  rw [if_neg hne]
  simp only
  split
  · rename_i hzero
    constructor
    · intro h
      cases h
      exact ⟨hzero, rfl⟩
    · rintro ⟨-, rfl⟩
      rfl
  · rename_i hzero
    split <;>
    · exact ⟨nofun, fun h => absurd h.1 hzero⟩

theorem deriveSessionPair_halves (h : S.deriveSessionPair own peer = .ok pair) :
    if own.publicKey < peer
    then Halves (S.keyMaterial (S.shared own.secretKey peer) (sessionContext own.publicKey peer)) pair pair.swap
    else Halves (S.keyMaterial (S.shared own.secretKey peer) (sessionContext own.publicKey peer)) pair.swap pair := by
  have hhalves := S.halves_keyMaterial (S.shared own.secretKey peer) (sessionContext own.publicKey peer)
  unfold deriveSessionPair at h
  split at h
  · cases h
  simp only at h
  split at h
  · cases h
  split at h
  · rename_i hlt
    cases h
    rw [if_pos hlt]
    exact hhalves
  · rename_i hlt
    cases h
    rw [if_neg hlt]
    exact hhalves

end Suite

/-! ### Refusals -/

namespace Agreement

variable {S : Suite} {x g : Agreement} {own : KeyPair} {peer : PublicKey} {e : ArmError}

/-- A bond is refused exactly for one of the two reasons. -/
theorem bondWith_error : bondWith S own peer = .error e ↔ S.Refuses own peer e := by
  unfold bondWith
  cases hid : S.agreementId own.publicKey peer with
  | error e' =>
    obtain ⟨heq, rfl⟩ := Suite.agreementId_error.1 hid
    constructor
    · intro h
      cases h
      exact .equal heq
    · rintro (- | ⟨hne, -⟩)
      · rfl
      · exact absurd heq hne
  | ok id =>
    have hne := (Suite.agreementId_ok.1 hid).1
    cases hpair : S.deriveSessionPair own peer with
    | error e' =>
      obtain ⟨hzero, rfl⟩ := (Suite.deriveSessionPair_error hne).1 hpair
      constructor
      · intro h
        cases h
        exact .zero hne hzero
      · rintro (heq | -)
        · exact absurd heq hne
        · rfl
    | ok pair =>
      constructor
      · nofun
      · rintro (heq | ⟨-, hzero⟩)
        · exact absurd heq hne
        · rw [(Suite.deriveSessionPair_error hne).2 ⟨hzero, rfl⟩] at hpair
          cases hpair

/-- Both ends are refused for the same reason. -/
theorem refuses_swap {a b : SecretKey} (hshared : S.shared a (S.publicOf b) = S.shared b (S.publicOf a))
    (h : S.Refuses (S.keyPair a) (S.publicOf b) e) : S.Refuses (S.keyPair b) (S.publicOf a) e := by
  cases h with
  | equal heq => exact .equal heq.symm
  | zero hne hzero => exact .zero hne.symm (hshared.symm.trans hzero)

theorem withRecipient_ok : x.withRecipient S peer = .ok g ↔
    ∃ b, bondWith S x.keyPair peer = .ok b ∧ g = { x with bond := some b } := by
  rw [withRecipient_eq]
  cases bondWith S x.keyPair peer with
  | error e => exact ⟨nofun, nofun⟩
  | ok b =>
    constructor
    · intro h
      cases h
      exact ⟨b, rfl, rfl⟩
    · rintro ⟨_, hb, rfl⟩
      cases hb
      rfl

theorem withRecipient_error : x.withRecipient S peer = .error e ↔ S.Refuses x.keyPair peer e := by
  rw [← bondWith_error, withRecipient_eq]
  cases bondWith S x.keyPair peer with
  | error e' =>
    constructor <;>
    · intro h
      cases h
      rfl
  | ok b => exact ⟨nofun, nofun⟩

theorem agreementId_of_withRecipient (h : x.withRecipient S peer = .ok g) :
    ∃ id, g.id = some id ∧ S.agreementId x.keyPair.publicKey peer = .ok id := by
  obtain ⟨b, hb, rfl⟩ := withRecipient_ok.1 h
  exact ⟨b.id, rfl, (bondWith_ok hb).2.1⟩

/-! ### In place -/

theorem setRecipient_cases (S : Suite) (x : Agreement) (peer : PublicKey) :
    (∃ e, x.withRecipient S peer = .error e ∧ x.setRecipient S peer = (.error e, x)) ∨
      ∃ g, x.withRecipient S peer = .ok g ∧ x.setRecipient S peer = (.ok (), g) := by
  rw [withRecipient_eq]
  cases hb : bondWith S x.keyPair peer with
  | error e => exact .inl ⟨e, rfl, setRecipient_error hb⟩
  | ok b => exact .inr ⟨_, rfl, setRecipient_ok hb⟩

end Agreement

namespace Suite

variable (S : Suite)

def agreement (own peer : SecretKey) : Except ArmError Agreement :=
  (Agreement.ofKeyPair (S.keyPair own)).withRecipient S (S.publicOf peer)

/-- What two owners of secrets have in common when each has come to an agreement with the other. -/
structure Mutual (a b : SecretKey) (g h : Agreement) : Prop where
  distinct : S.publicOf a ≠ S.publicOf b
  contributes : S.shared a (S.publicOf b) ≠ Block.filled 32 0
  recipient : g.recipient = some (S.publicOf b) ∧ h.recipient = some (S.publicOf a)
  id : ∃ id, g.id = some id ∧ h.id = some id
  pair : ∃ p q, g.pair = some p ∧ h.pair = some q ∧ p.tx = q.rx ∧ p.rx = q.tx ∧
    let material := S.keyMaterial (S.shared a (S.publicOf b)) (sessionContext (S.publicOf a) (S.publicOf b))
    if S.publicOf a < S.publicOf b then Halves material p q else Halves material q p

variable {S}

theorem mutual_of_bond {a b : SecretKey} {bond : Bond}
    (h : Agreement.bondWith S (S.keyPair a) (S.publicOf b) = .ok bond) :
    S.Mutual a b { Agreement.ofKeyPair (S.keyPair a) with bond := some bond }
      { Agreement.ofKeyPair (S.keyPair b) with bond := some ⟨S.publicOf a, bond.id, bond.pair.swap⟩ } where
  distinct := ne_of_agreementId (bondWith_ok h).2.1
  contributes := by
    intro hzero
    have hrefuses := Agreement.bondWith_error.2 (.zero (ne_of_agreementId (bondWith_ok h).2.1) hzero)
    rw [h] at hrefuses
    cases hrefuses
  recipient := ⟨congrArg some (bondWith_ok h).1, rfl⟩
  id := ⟨bond.id, rfl, rfl⟩
  pair := ⟨bond.pair, bond.pair.swap, rfl, rfl, rfl, rfl, deriveSessionPair_halves (bondWith_ok h).2.2⟩

/-- **Both ends come to the same agreement, or to none.**  Take two owners of secrets that share one secret.  Either
each is refused an agreement with the other, for the same reason; or both have one, of one name, and what one end sends
under the other one receives under.  The session keys are 64 octets of key material, which the suite that nodes run
expands at once: the owner of the lower key sends under the first half, the owner of the higher one under the second.

Two agreements have one name exactly if they are between the same two public keys, unless the digest collides on the
keys joined.  An agreement that is refused a peer's key is left as it was, whatever it was, also in its session. -/
theorem agreement_mutual (S : Suite) (a b : SecretKey)
    (hshared : S.shared a (S.publicOf b) = S.shared b (S.publicOf a)) :
    ((∃ e, S.Refuses (S.keyPair a) (S.publicOf b) e ∧ S.agreement a b = .error e ∧ S.agreement b a = .error e) ∨
      ∃ g h, S.agreement a b = .ok g ∧ S.agreement b a = .ok h ∧ S.Mutual a b g h) ∧
    (∀ secret context, standard.keyMaterial secret context = Crypto.keyMaterial secret context 64) ∧
    (∀ (x y : Agreement) (p q : PublicKey) (g h : Agreement),
      x.withRecipient S p = .ok g → y.withRecipient S q = .ok h →
        (g.id = h.id ↔ s(x.keyPair.publicKey, p) = s(y.keyPair.publicKey, q) ∨
          S.Collision (PublicKey.joined x.keyPair.publicKey p) (PublicKey.joined y.keyPair.publicKey q))) ∧
    (∀ (x : Agreement) (p : PublicKey),
      (∃ e, x.withRecipient S p = .error e ∧ x.setRecipient S p = (.error e, x)) ∨
        ∃ g, x.withRecipient S p = .ok g ∧ x.setRecipient S p = (.ok (), g)) ∧
    ∀ (x : Context) (key : PublicKey) (t : Turn) (g : Agreement), t.session.inactive = some g →
      t.bondInactive x key = ((g.setRecipient x.suite key).1,
        t.withSession { t.session with inactive := some (g.setRecipient x.suite key).2 }) := by
  refine ⟨?_, standard_keyMaterial, ?_, Agreement.setRecipient_cases S, fun x key t g => t.bondInactive_eq x key⟩
  · cases hbond : Agreement.bondWith S (S.keyPair a) (S.publicOf b) with
    | error e =>
      have hrefuses := Agreement.bondWith_error.1 hbond
      refine .inl ⟨e, hrefuses, Agreement.withRecipient_error.2 hrefuses, Agreement.withRecipient_error.2 ?_⟩
      exact Agreement.refuses_swap hshared hrefuses
    | ok bond =>
      exact .inr ⟨_, _, Agreement.withRecipient_ok.2 ⟨bond, hbond, rfl⟩,
        Agreement.withRecipient_ok.2 ⟨_, bondWith_swap hshared hbond, rfl⟩, mutual_of_bond hbond⟩
  · intro x y p q g h hg hh
    obtain ⟨id, hid, hname⟩ := Agreement.agreementId_of_withRecipient hg
    obtain ⟨id', hid', hname'⟩ := Agreement.agreementId_of_withRecipient hh
    rw [hid, hid', Option.some.injEq]
    exact agreementId_inj hname hname'

/-! ### Two owners of keys -/

def alice : SecretKey := ⟨Block.filled 32 0xa1⟩

def bob : SecretKey := ⟨Block.filled 32 0xb2⟩

theorem publicOf_alice : (standard.publicOf alice).rank =
    0xc306fb0ef2bf8b7f93bad98155fa37daec74db0c4cbeda6c6f1dba9d36558252 := by decide +kernel

theorem publicOf_bob : (standard.publicOf bob).rank =
    0xdb48257e1237976a74ad8cfedca00213408fe89ac6251f1b930245f242b5c31a := by decide +kernel

theorem shared_alice : (standard.shared alice (standard.publicOf bob)).toNat =
    0x9502af7a4b678841b839429623a09a23f6cc551836e48a52c0e4faf4b9d3b06e := by decide +kernel

theorem shared_bob : (standard.shared bob (standard.publicOf alice)).toNat =
    0x9502af7a4b678841b839429623a09a23f6cc551836e48a52c0e4faf4b9d3b06e := by decide +kernel

/-- Alice's key is the lower one, so she sends under the first half.  Her agreement with Bob outlives the attempt
to make it one with herself. -/
theorem agreement_mutual_standard :
    standard.shared alice (standard.publicOf bob) = standard.shared bob (standard.publicOf alice) ∧
      standard.publicOf alice < standard.publicOf bob ∧
      ∃ g h, standard.agreement alice bob = .ok g ∧ standard.agreement bob alice = .ok h ∧
        standard.Mutual alice bob g h ∧ g.id = h.id ∧
        g.setRecipient standard (standard.publicOf alice) = (.error (.invalidArgument .equalKeys), g) := by
  have hshared : standard.shared alice (standard.publicOf bob) = standard.shared bob (standard.publicOf alice) :=
    Block.ext (shared_alice.trans shared_bob.symm)
  have hlt : standard.publicOf alice < standard.publicOf bob := by
    rw [PublicKey.lt_def, publicOf_alice, publicOf_bob]
    decide
  obtain ⟨hends, -, hnames, hplace, -⟩ := agreement_mutual standard alice bob hshared
  refine ⟨hshared, hlt, ?_⟩
  rcases hends with ⟨e, hrefuses, -⟩ | ⟨g, h, hg, hh, hmutual⟩
  · cases hrefuses with
    | equal heq =>
      have hrank := congrArg PublicKey.rank heq
      rw [show (standard.keyPair alice).publicKey = standard.publicOf alice from rfl, publicOf_alice,
        publicOf_bob] at hrank
      exact absurd hrank (by decide)
    | zero _ hzero =>
      have hnumber := congrArg Block.toNat hzero
      rw [show (standard.keyPair alice).secretKey = alice from rfl, shared_alice] at hnumber
      exact absurd hnumber (by decide +kernel)
  · refine ⟨g, h, hg, hh, hmutual, (hnames _ _ _ _ g h hg hh).2 (.inl Sym2.eq_swap), ?_⟩
    have hown : standard.Refuses g.keyPair (standard.publicOf alice) (.invalidArgument .equalKeys) := by
      obtain ⟨bond, -, rfl⟩ := Agreement.withRecipient_ok.1 hg
      exact .equal rfl
    rcases hplace g (standard.publicOf alice) with ⟨e, he, hset⟩ | ⟨g', hg', -⟩
    · rw [Agreement.withRecipient_error.2 hown] at he
      cases he
      exact hset
    · rw [Agreement.withRecipient_error.2 hown] at hg'
      cases hg'

end Suite

end Overlay
