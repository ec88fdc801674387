import FileHub.Lib.CString

/-!
# Integers in network byte order

What `htobe16`, `htobe32` and `htobe64` write and `be16toh` and the like read:
the bytes of a two's complement integer, the highest first.
-/

namespace FileHub.Lib

/-- The `n` low bytes of `v`, the highest first. -/
def bigEndian : ℕ → ℕ → Bytes
  | 0, _ => []
  | n + 1, v => bigEndian n (v / 256) ++ [UInt8.ofNat (v % 256)]

def ofBigEndian (bytes : Bytes) : ℕ := bytes.foldl (fun v c => v * 256 + c.toNat) 0

theorem length_bigEndian (n v : ℕ) : (bigEndian n v).length = n := by
  induction n generalizing v with
  | zero => rfl
  | succ n ih => rw [bigEndian, List.length_append, ih, List.length_singleton]

theorem ofBigEndian_bigEndian (n v : ℕ) : ofBigEndian (bigEndian n v) = v % 256 ^ n := by
  induction n generalizing v with
  | zero => exact (Nat.mod_one v).symm
  | succ n ih =>
    have hlow : (UInt8.ofNat (v % 256)).toNat = v % 256 := by
      rw [UInt8.toNat_ofNat', Nat.mod_eq_of_lt (Nat.mod_lt v (by decide))]
    have hhigh : (bigEndian n (v / 256)).foldl (fun v c => v * 256 + c.toNat) 0 =
        v / 256 % 256 ^ n := ih (v / 256)
    rw [ofBigEndian, bigEndian, List.foldl_append, hhigh, List.foldl_cons, List.foldl_nil, hlow,
      Nat.pow_succ', Nat.mod_mul]
    omega

/-- `x` is a signed integer of `n` bytes. -/
def FitsBytes (n : ℕ) (x : ℤ) : Prop := -(256 ^ n : ℕ) ≤ x * 2 ∧ x * 2 < (256 ^ n : ℕ)

instance (n : ℕ) (x : ℤ) : Decidable (FitsBytes n x) := inferInstanceAs (Decidable (_ ∧ _))

def hostToNetwork (n : ℕ) (x : ℤ) : Bytes := bigEndian n (x % (256 ^ n : ℕ)).toNat

def networkToHost (bytes : Bytes) : ℤ := Int.bmod (ofBigEndian bytes) (256 ^ bytes.length)

theorem length_hostToNetwork (n : ℕ) (x : ℤ) : (hostToNetwork n x).length = n :=
  length_bigEndian n _

theorem networkToHost_hostToNetwork {n : ℕ} {x : ℤ} (hx : FitsBytes n x) :
    networkToHost (hostToNetwork n x) = x := by
  have hpos : 0 < 256 ^ n := Nat.pow_pos (by decide)
  have hnonneg : 0 ≤ x % (256 ^ n : ℕ) := Int.emod_nonneg x (by omega)
  rw [networkToHost, length_hostToNetwork, hostToNetwork, ofBigEndian_bigEndian,
    Int.natCast_mod, Int.toNat_of_nonneg hnonneg, Int.emod_emod, Int.emod_bmod]
  exact Int.bmod_eq_of_le_mul_two hx.1 hx.2

end FileHub.Lib
