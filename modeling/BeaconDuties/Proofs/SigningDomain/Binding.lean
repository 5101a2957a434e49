import BeaconDuties.Proofs.MerkleTree.Binding
import BeaconDuties.SigningDomain

/-!
# Binding — a signing root speaks for one message under one domain

What is signed is the root of a message and a domain, and the domain holds the kind of message and
28 bytes of the root of the fork and chain.  Two messages of one size that have the same signing
root are the same message under the same kind, fork version and genesis root.  The exceptions are
spelled out: two blocks hashed on the way collide, or two forks agree in the 28 bytes that a domain
keeps of them.

* `hashSigningRoot` — the recorded computation of a signing root;
* `forkDataRoot_eq_hash_encoding`, `signingDomain_binds` — what a domain keeps of a fork;
* `signingRoot_binds` — what equal signing roots mean.
-/

namespace BeaconDuties

open MerkleTree

/-! ## Domains -/

/-- A leaf holds the bytes and then zeros. -/
theorem MerkleTree.toArray_leaf {n : Nat} (bytes : Bytes n) (hfits : n ≤ 32) :
    (leaf bytes).toArray = bytes.toArray ++ Array.replicate (32 - n) 0 := by
  apply Array.ext
  · simp [hfits]
  · intro i hi hi'
    by_cases hinside : i < n
    · simp [leaf, hinside]
    · simp [leaf, Array.getElem_append, hinside]

/-- The root of a fork is the digest of its version, zeros, and the genesis root. -/
theorem forkDataRoot_eq_hash_encoding (version : Version) (genesisRoot : Root) :
    forkDataRoot version genesisRoot =
      Sha256.hash (Signable.forkData ⟨version, genesisRoot⟩).encoding := by
  rw [forkDataRoot, ForkData.root, node, toArray_leaf version (by decide)]
  rfl

theorem encoding_forkData_injective {data data' : ForkData}
    (hencoding : (Signable.forkData data).encoding = (Signable.forkData data').encoding) :
    data = data' := by
  rcases Array.append_inj hencoding (by simp) with ⟨hfirst, hroot⟩
  rcases Array.append_inj hfirst (by simp) with ⟨hversion, _⟩
  cases data
  cases data'
  simp_all [Vector.toArray_inj]

/-- Two forks are different, and the digests of their blocks agree in all that a domain keeps. -/
def DomainsConflate (data data' : ForkData) : Prop :=
  (Signable.forkData data).encoding ≠ (Signable.forkData data').encoding ∧
    (Sha256.hash (Signable.forkData data).encoding).take 28 =
      (Sha256.hash (Signable.forkData data').encoding).take 28

/-- A domain determines its kind, and of its fork the first 28 bytes of the root. -/
theorem signingDomain_binds {kind kind' : DomainType} {version version' : Version}
    {genesisRoot genesisRoot' : Root}
    (hdomain : signingDomain kind version genesisRoot =
      signingDomain kind' version' genesisRoot') :
    (kind = kind' ∧ version = version' ∧ genesisRoot = genesisRoot') ∨
      DomainsConflate ⟨version, genesisRoot⟩ ⟨version', genesisRoot'⟩ := by
  have hbytes := congrArg Vector.toArray hdomain
  rw [signingDomain, signingDomain, Vector.toArray_append, Vector.toArray_append] at hbytes
  rcases Array.append_inj hbytes (by simp) with ⟨hkind, hfork⟩
  rw [forkDataRoot_eq_hash_encoding, forkDataRoot_eq_hash_encoding, Bytes.leading, Bytes.leading,
    Vector.toArray_cast, Vector.toArray_cast] at hfork
  by_cases hencoding : (Signable.forkData ⟨version, genesisRoot⟩).encoding =
      (Signable.forkData ⟨version', genesisRoot'⟩).encoding
  · cases encoding_forkData_injective hencoding
    exact .inl ⟨Vector.toArray_inj.1 hkind, rfl, rfl⟩
  · exact .inr ⟨hencoding, Vector.toArray_inj.1 hfork⟩

/-! ## Signing roots -/

/-- The recorded computation of the signing root of a byte string. -/
def hashSigningRoot (bytes : Array UInt8) (domain : Domain) : Hashed :=
  .parent (hashBytes bytes) (.given domain)

theorem root_hashSigningRoot (bytes : Array UInt8) (domain : Domain) :
    (hashSigningRoot bytes domain).root = signingRootOfBytes bytes domain := by
  rw [hashSigningRoot, Hashed.root_parent, root_hashBytes]
  rfl

/-- Byte strings of one size have the same signing root under one domain only, and only if they are
the same, unless their blocks collide. -/
theorem hashSigningRoot_binds {bytes bytes' : Array UInt8} {domain domain' : Domain}
    (hsize : bytes.size = bytes'.size)
    (hroot : (hashSigningRoot bytes domain).root = (hashSigningRoot bytes' domain').root) :
    (bytes = bytes' ∧ domain = domain') ∨
      Collide (hashSigningRoot bytes domain).blocks (hashSigningRoot bytes' domain').blocks := by
  rcases parent_binds hroot with ⟨hobject, hdomain⟩ | hcollide
  · rcases hashBytes_binds hsize hobject with hbytes | hcollide
    · exact .inl ⟨hbytes, hdomain⟩
    · exact .inr hcollide.parent_left
  · exact .inr hcollide

/-- If two byte strings of one size have the same signing root, each under the domain of a kind, a
fork version and a genesis root, then they are equal and so are kinds, versions and genesis roots;
or two different blocks that the two computations hash have the same digest; or the blocks of the
two forks differ, and their digests agree on the 28 bytes that domains keep. -/
theorem signingRoot_binds (bytes bytes' : Array UInt8) (kind kind' : DomainType)
    (version version' : Version) (genesisRoot genesisRoot' : Root)
    (hsize : bytes.size = bytes'.size)
    (hroot : signingRootOfBytes bytes (signingDomain kind version genesisRoot) =
      signingRootOfBytes bytes' (signingDomain kind' version' genesisRoot')) :
    (bytes = bytes' ∧ kind = kind' ∧ version = version' ∧ genesisRoot = genesisRoot') ∨
    Collide (hashSigningRoot bytes (signingDomain kind version genesisRoot)).blocks
      (hashSigningRoot bytes' (signingDomain kind' version' genesisRoot')).blocks ∨
    DomainsConflate ⟨version, genesisRoot⟩ ⟨version', genesisRoot'⟩ := by
  rw [← root_hashSigningRoot, ← root_hashSigningRoot] at hroot
  rcases hashSigningRoot_binds hsize hroot with ⟨hbytes, hdomain⟩ | hcollide
  · rcases signingDomain_binds hdomain with hsame | hconflate
    · exact .inl ⟨hbytes, hsame⟩
    · exact .inr (.inr hconflate)
  · exact .inr (.inl hcollide)

/-- One byte more than a chunk, written in two ways, on one fork. -/
theorem signingRoot_binds_two_chunks :
    let bytes : Array UInt8 := Array.replicate 33 7
    let bytes' : Array UInt8 := (Array.replicate 32 7).push 7
    let version : Version := .ofFour 0 0 0 1
    let domain := signingDomain (.ofFour 1 0 0 0) version zeroHash
    bytes.size = bytes'.size ∧ signingRootOfBytes bytes domain = signingRootOfBytes bytes' domain ∧
      ((bytes = bytes' ∧ Bytes.ofFour 1 0 0 0 = Bytes.ofFour 1 0 0 0 ∧ version = version ∧
          zeroHash = zeroHash) ∨
        Collide (hashSigningRoot bytes domain).blocks (hashSigningRoot bytes' domain).blocks ∨
        DomainsConflate ⟨version, zeroHash⟩ ⟨version, zeroHash⟩) := by
  intro bytes bytes' version domain
  have hsize : bytes.size = bytes'.size := by decide
  have hroot : signingRootOfBytes bytes domain = signingRootOfBytes bytes' domain :=
    congrArg (signingRootOfBytes · domain) (by decide)
  exact ⟨hsize, hroot, signingRoot_binds bytes bytes' _ _ version version zeroHash zeroHash hsize
    hroot⟩

end BeaconDuties
