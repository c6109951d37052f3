import Overlay.Crypto.Suite

/-!
# Laws of suites

What conversations take from cryptography, each law by itself: that both ends of an agreement compute the
same secret (`Suite.Commutes`), which is not zero (`Suite.Contributes`), that messages can be encrypted
(`Suite.Seals`), that what was encrypted can be decrypted (`Suite.Opens`), and that nothing but the key, the
nonce and the data of an encryption opens its ciphertext (`Suite.Binds`), and that there is room for a tag in what
was encrypted (`Suite.Tags`).

Both ends name an agreement alike (`agreementId_comm`).  Where secrets commute, the session keys of one end
are those of the other, seen from there (`deriveSessionPair_swap`).
-/

namespace Overlay

namespace Suite

variable (S : Suite)

/-- Two owners of key pairs share one secret. -/
def Commutes : Prop := ∀ a b : SecretKey, S.shared a (S.publicOf b) = S.shared b (S.publicOf a)

/-- What was encrypted is decrypted with the same key, nonce and data. -/
def Opens : Prop := ∀ (k : SessionKey) (n : Nonce) (d p c : Bytes),
  S.encrypt k n d p = some c → S.decrypt k n d c = some p

/-- Only the key, the nonce and the data of an encryption open its ciphertext, and give its plaintext. -/
def Binds : Prop := ∀ (k k' : SessionKey) (n n' : Nonce) (d d' p p' c : Bytes),
  S.encrypt k n d p = some c → S.decrypt k' n' d' c = some p' → k' = k ∧ n' = n ∧ d' = d ∧ p' = p

/-- What is as long as a message of the handshake can be encrypted: an octet for its kind, and a key or a
name. -/
def Seals : Prop := ∀ (k : SessionKey) (n : Nonce) (d p : Bytes),
  p.length = 33 → ∃ c, S.encrypt k n d p = some c

/-- What was encrypted is at least as long as a tag. -/
def Tags : Prop := ∀ (k : SessionKey) (n : Nonce) (d p c : Bytes), S.encrypt k n d p = some c → 16 ≤ c.length

/-- Honest keys never share the zero secret. -/
def Contributes : Prop := ∀ a b : SecretKey, S.shared a (S.publicOf b) ≠ Block.filled 32 0

variable {S} {a b : PublicKey} {id : AgreementId}

theorem agreementId_comm (S : Suite) (a b : PublicKey) : S.agreementId a b = S.agreementId b a := by
  unfold agreementId
  rw [PublicKey.ordered_swap a b]
  by_cases h : a = b
  · rw [if_pos h, if_pos h.symm]
  · rw [if_neg h, if_neg (Ne.symm h)]

theorem ne_of_agreementId (h : S.agreementId a b = .ok id) : a ≠ b := by
  rintro rfl
  rw [agreementId, if_pos rfl] at h
  cases h

theorem sessionContext_comm (a b : PublicKey) : sessionContext a b = sessionContext b a := by
  rw [sessionContext, sessionContext, PublicKey.ordered_swap a b]

theorem derives (hS : S.Contributes) {own peer : SecretKey} (h : S.publicOf own ≠ S.publicOf peer) :
    ∃ id pair, S.agreementId (S.publicOf own) (S.publicOf peer) = .ok id ∧
      S.deriveSessionPair (S.keyPair own) (S.publicOf peer) = .ok pair := by
  have hshared : ¬ S.shared (S.keyPair own).secretKey (S.publicOf peer) = Block.filled 32 0 := hS own peer
  unfold agreementId deriveSessionPair
  rw [if_neg h, if_neg (show ¬ (S.keyPair own).publicKey = S.publicOf peer from h)]
  simp only
  rw [if_neg hshared]
  split <;> exact ⟨_, _, rfl, rfl⟩

/-- The session keys of the other end are the same, seen from there. -/
theorem deriveSessionPair_swap {own peer : SecretKey} {pair : SessionPair}
    (hshared : S.shared own (S.publicOf peer) = S.shared peer (S.publicOf own))
    (h : S.deriveSessionPair (S.keyPair own) (S.publicOf peer) = .ok pair) :
    S.deriveSessionPair (S.keyPair peer) (S.publicOf own) = .ok pair.swap := by
  unfold deriveSessionPair keyPair at h ⊢
  simp only at h ⊢
  by_cases he : S.publicOf own = S.publicOf peer
  · rw [if_pos he] at h
    cases h
  · rw [if_neg he] at h
    rw [if_neg (Ne.symm he), ← hshared, sessionContext_comm (S.publicOf peer)]
    split at h
    · cases h
    · rename_i hzero
      rw [if_neg hzero]
      generalize S.expand (S.shared own (S.publicOf peer))
        (sessionContext (S.publicOf own) (S.publicOf peer)) = material at h ⊢
      obtain ⟨up, down⟩ := material
      by_cases hlt : S.publicOf own < S.publicOf peer
      · have hlt' : ¬ S.publicOf peer < S.publicOf own := by
          rw [PublicKey.lt_def] at hlt ⊢
          omega
        rw [if_pos hlt] at h
        rw [if_neg hlt']
        cases h
        rfl
      · have hlt' : S.publicOf peer < S.publicOf own := by
          have hne : (S.publicOf own).rank ≠ (S.publicOf peer).rank :=
            fun hr => he (PublicKey.rank_injective hr)
          rw [PublicKey.lt_def] at hlt ⊢
          omega
        rw [if_neg hlt] at h
        rw [if_pos hlt']
        cases h
        rfl

end Suite

end Overlay
