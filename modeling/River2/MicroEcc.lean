import River2.EccKeys
import River2.Peer

/-!
# The handshake on micro-ecc

What is said of the handshake assumes of the key agreement that the device's key is valid and that
both sides compute one secret. Two key pairs of `uECC_make_key` have both.

1. `withMicroEcc`: a library whose functions on the curve are those of `uECC.c`.
2. `honest_withMicroEcc`: on it, a device with a made key pair is honest towards an app with one.
-/

namespace River2

/-- The library with the two functions of micro-ecc. Every call of `uECC_shared_secret` has random
words of its own. Where it fails, nothing reads the secret. -/
def Crypto.withMicroEcc (c : Crypto) (rng : Bytes → Octets 21 → Rng) : Crypto :=
  { c with
    validPublicKey := River2.validPublicKey
    sharedSecret := fun pub priv =>
      (uEccSharedSecret (rng pub priv) pub priv).getD ⟨List.replicate 20 0, rfl⟩ }

/-- **The handshake's assumption.** Where the key pairs of the app and the device are made, no
product is misreduced and neither key has a zero for its `x`, both sides compute a secret, the same
one, and a device that keeps to the rest of the protocol is honest on micro-ecc. -/
theorem honest_withMicroEcc (c : Crypto) (rng : Bytes → Octets 21 → Rng) {p : Peer}
    {app : Octets 40 × Octets 21} {za zb : Vli} (hp : p.Conforms) (ha : Made app za)
    (hb : Made p.keyPair zb) (hca : CleanKey app za) (hcb : CleanKey p.keyPair zb)
    (hsa : CleanSecret (rng p.keyPair.1.1 app.2) p.keyPair.1.1 app.2)
    (hsb : CleanSecret (rng app.1.1 p.keyPair.2) app.1.1 p.keyPair.2)
    (hcheck : CleanPoint (publicPoint p.keyPair.1.1)) (hxa : beNat (slice app.1.1 0 20) ≠ 0)
    (hxb : beNat (slice p.keyPair.1.1 0 20) ≠ 0) :
    (∃ s, uEccSharedSecret (rng p.keyPair.1.1 app.2) p.keyPair.1.1 app.2 = some s ∧
      uEccSharedSecret (rng app.1.1 p.keyPair.2) app.1.1 p.keyPair.2 = some s) ∧
    p.Honest (c.withMicroEcc rng) app := by
  obtain ⟨s, hs, hs'⟩ := ha.exists_secret hb hca hcb hsa hsb hxa hxb
  have hagree : (c.withMicroEcc rng).sharedSecret p.keyPair.1.1 app.2 =
      (c.withMicroEcc rng).sharedSecret app.1.1 p.keyPair.2 := by
    show (uEccSharedSecret _ p.keyPair.1.1 app.2).getD _ =
      (uEccSharedSecret _ app.1.1 p.keyPair.2).getD _
    rw [hs, hs']
  exact ⟨⟨s, hs, hs'⟩, { hp with valid := hb.validPublicKey hcb hcheck, agree := hagree }⟩

namespace Sample

/-- The device with the key pair for five. -/
def keyedPeer : Peer := { peer with keyPair := keysFive }

theorem conforms_keyedPeer : keyedPeer.Conforms :=
  ⟨rfl, honest_peer.pos, nofun, honest_peer.status, nofun, honest_peer.verdict, honest_peer.room⟩

end Sample

open Sample in
/-- The app with the key pair for three, and the device with that for five. -/
theorem honest_withMicroEcc_sample :
    (∃ s, uEccSharedSecret (smallRng 2) keyedPeer.keyPair.1.1 keysThree.2 = some s ∧
      uEccSharedSecret (smallRng 2) keysThree.1.1 keyedPeer.keyPair.2 = some s) ∧
    keyedPeer.Honest (crypto.withMicroEcc fun _ _ => smallRng 2) keysThree := by
  have hcheck : CleanPoint (publicPoint keysFive.1.1) := by
    unfold CleanPoint
    decide +kernel
  exact honest_withMicroEcc crypto (fun _ _ => smallRng 2) conforms_keyedPeer
    keysThree_made.1 keysFive_made.1 keysThree_made.2 keysFive_made.2 three_five five_three hcheck
    (by decide) (by decide)

end River2
