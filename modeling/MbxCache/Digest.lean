import MbxCache.Encoding

namespace MbxCache

inductive Algorithm
  | blake3
  | sha256
  deriving DecidableEq, Repr

def Algorithm.asStr : Algorithm → String
  | .blake3 => "blake3"
  | .sha256 => "sha256"

structure Digest where
  algorithm : String
  hash : String
  size : UInt64
  deriving DecidableEq, Repr

namespace Digest

def algorithmKind (digest : Digest) : Option Algorithm :=
  if digest.algorithm = Algorithm.blake3.asStr then some .blake3
  else if digest.algorithm = Algorithm.sha256.asStr then some .sha256
  else none

def validate (digest : Digest) : Bool :=
  digest.algorithmKind.isSome && digest.hash.toList.length == 64 &&
    digest.hash.toList.all Hex.isLower

end Digest

def maxBatchItems : Nat := 10000

/-- `MBXPACK1` -/
def blobPackMagic : Bytes := [77, 66, 88, 80, 65, 67, 75, 49]

def blobPackHeaderBytes : Nat := 41

@[simp] theorem blobPackMagic_length : blobPackMagic.length = 8 := rfl

theorem algorithmKind_asStr (digest : Digest) (algorithm : Algorithm) :
    digest.algorithmKind = some algorithm ↔ digest.algorithm = algorithm.asStr := by
  cases algorithm <;> unfold Digest.algorithmKind <;> split <;> rename_i first
  · simp [first]
  · split <;> simp_all
  · simp [first, Algorithm.asStr]
  · split <;> simp_all

theorem validate_iff (digest : Digest) :
    digest.validate = true ↔
      (∃ algorithm, digest.algorithmKind = some algorithm) ∧
        digest.hash.toList.length = 64 ∧ ∀ c ∈ digest.hash.toList, Hex.isLower c = true := by
  simp only [Digest.validate, Bool.and_eq_true, Option.isSome_iff_exists, beq_iff_eq,
    List.all_eq_true, and_assoc]

end MbxCache
