import Overlay.Proofs.Crypto.Suite

/-!
# The suite of nodes decrypts what it encrypts

Combining a byte string with a stream twice gives it back (`ChaCha20.combine_combine`), so the authenticated
encryption of nodes opens what it sealed (`Aead.decrypt_encrypt`), and the tag makes a ciphertext at least 16 octets
long.  So two of the laws that are taken from suites elsewhere hold of the suite that nodes run
(`Suite.standard_opens`, `Suite.standard_tags`).
-/

namespace Overlay

namespace Crypto

namespace ChaCha20

/-- Pieces of a byte string, each combined with the block of its number. -/
def combineAll (key : Block 32) (nonce : Bytes) (counter : Nat) (ps : List Bytes) : Bytes :=
  (ps.zipIdx counter).flatMap fun (piece, k) => List.zipWith (· ^^^ ·) piece (block key nonce k)

theorem combine_eq (key : Block 32) (nonce : Bytes) (counter : Nat) (b : Bytes) :
    combine key nonce counter b = combineAll key nonce counter (chunks 64 b) := rfl

theorem combineAll_cons (key : Block 32) (nonce : Bytes) (counter : Nat) (p : Bytes) (ps : List Bytes) :
    combineAll key nonce counter (p :: ps) =
      List.zipWith (· ^^^ ·) p (block key nonce counter) ++ combineAll key nonce (counter + 1) ps := rfl

theorem zipWith_xor_zipWith {p q : Bytes} (h : p.length ≤ q.length) :
    List.zipWith (· ^^^ ·) (List.zipWith (· ^^^ ·) p q) q = p := by
  induction p generalizing q with
  | nil => rfl
  | cons x p ih =>
    cases q with
    | nil => exact absurd h (by simp)
    | cons y q =>
      have hx : (x ^^^ y) ^^^ y = x := by rw [UInt8.xor_assoc, UInt8.xor_self, UInt8.xor_zero]
      have hp := ih (Nat.le_of_succ_le_succ h)
      simp only [List.zipWith_cons_cons, hx, hp]

/-- Combining keeps the length, and combining again gives back what there was. -/
theorem combineAll_pieces (key : Block 32) (nonce : Bytes) (counter n : Nat) (b : Bytes) (h : b.length ≤ 64 * n) :
    (combineAll key nonce counter (pieces 64 n b)).length = b.length ∧
      combineAll key nonce counter (pieces 64 n (combineAll key nonce counter (pieces 64 n b))) = b := by
  induction n generalizing counter b with
  | zero =>
    have hb : b = [] := List.eq_nil_of_length_eq_zero (by omega)
    subst hb
    exact ⟨rfl, rfl⟩
  | succ n ih =>
    obtain ⟨hlength, hback⟩ := ih (counter + 1) (b.drop 64) (by rw [List.length_drop]; omega)
    simp only [pieces, combineAll_cons]
    generalize hfront : List.zipWith (· ^^^ ·) (b.take 64) (block key nonce counter) = front
    generalize hrest : combineAll key nonce (counter + 1) (pieces 64 n (b.drop 64)) = rest at hlength hback
    have htake : (b.take 64).length ≤ (block key nonce counter).length := by
      rw [List.length_take, length_block]
      omega
    have hsize : front.length = (b.take 64).length := by
      rw [← hfront, List.length_zipWith]
      omega
    rw [List.length_drop] at hlength
    rw [List.length_take] at hsize
    -- A short front is the last piece, so the rest is empty then.
    have hcut : (front ++ rest).take 64 = front ∧ (front ++ rest).drop 64 = rest := by
      by_cases hlong : 64 ≤ b.length
      · exact ⟨List.take_left' (by omega), List.drop_left' (by omega)⟩
      · have hnil : rest = [] := List.eq_nil_of_length_eq_zero (by omega)
        subst hnil
        rw [List.append_nil]
        exact ⟨List.take_of_length_le (by omega), List.drop_of_length_le (by omega)⟩
    refine ⟨by rw [List.length_append]; omega, ?_⟩
    rw [hcut.1, hcut.2, hback, ← hfront, zipWith_xor_zipWith htake, List.take_append_drop]

theorem length_combine (key : Block 32) (nonce : Bytes) (counter : Nat) (b : Bytes) :
    (combine key nonce counter b).length = b.length :=
  (combineAll_pieces key nonce counter _ b (by omega)).1

theorem combine_combine (key : Block 32) (nonce : Bytes) (counter : Nat) (b : Bytes) :
    combine key nonce counter (combine key nonce counter b) = b := by
  have hback := (combineAll_pieces key nonce counter ((b.length + 64 - 1) / 64) b (by omega)).2
  rw [combine_eq key nonce counter (combine key nonce counter b), chunks, length_combine]
  exact hback

end ChaCha20

namespace Aead

theorem encrypt_eq_some {key : Block 32} {nonce : Block 24} {data plaintext c : Bytes} :
    encrypt key nonce data plaintext = some c ↔ countable plaintext = true ∧
      c = ChaCha20.combine (streamKey key nonce).1 (streamKey key nonce).2 1 plaintext ++
        (tag (streamKey key nonce).1 (streamKey key nonce).2 data
          (ChaCha20.combine (streamKey key nonce).1 (streamKey key nonce).2 1 plaintext)).toBytes := by
  unfold encrypt
  by_cases h : countable plaintext = true
  · rw [if_pos h]
    exact ⟨fun hc => ⟨h, (Option.some.inj hc).symm⟩, fun hc => congrArg some hc.2.symm⟩
  · rw [if_neg h]
    exact ⟨nofun, fun hc => absurd hc.1 h⟩

/-- What was sealed is opened. -/
theorem decrypt_encrypt {key : Block 32} {nonce : Block 24} {data plaintext c : Bytes}
    (h : encrypt key nonce data plaintext = some c) : decrypt key nonce data c = some plaintext := by
  obtain ⟨hcount, hc⟩ := encrypt_eq_some.1 h
  generalize hstream : streamKey key nonce = stream at hc
  have hbody := ChaCha20.length_combine stream.1 stream.2 1 plaintext
  have hback := ChaCha20.combine_combine stream.1 stream.2 1 plaintext
  generalize ChaCha20.combine stream.1 stream.2 1 plaintext = body at hc hbody hback
  have htag := (tag stream.1 stream.2 data body).length_toBytes
  have hlength : c.length - tagSize = body.length := by
    rw [hc, List.length_append, htag, tagSize]
    omega
  have hlong : ¬ c.length < tagSize := by
    rw [hc, List.length_append, htag, tagSize]
    omega
  have hbodyCount : countable body = true := by
    unfold countable at hcount ⊢
    rw [hbody]
    exact hcount
  have htake : c.take body.length = body := hc ▸ List.take_left' rfl
  have hdrop : c.drop body.length = (tag stream.1 stream.2 data body).toBytes := hc ▸ List.drop_left' rfl
  simp only [decrypt, if_neg hlong, hlength, htake, hdrop, hbodyCount, if_true, hstream, hback]

theorem tagSize_le_length {key : Block 32} {nonce : Block 24} {data plaintext c : Bytes}
    (h : encrypt key nonce data plaintext = some c) : tagSize ≤ c.length := by
  rw [(encrypt_eq_some.1 h).2, List.length_append, Block.length_toBytes, tagSize]
  omega

end Aead

end Crypto

namespace Suite

theorem standard_opens : standard.Opens := fun _ _ _ _ _ h => Crypto.Aead.decrypt_encrypt h

theorem standard_tags : standard.Tags := fun _ _ _ _ _ h => Crypto.Aead.tagSize_le_length h

end Suite

end Overlay
