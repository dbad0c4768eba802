import Mathlib.Data.BitVec
import Mathlib.Data.List.GetD
import RlboxDynamic.AddressRange
import RlboxDynamic.LittleEndian

/-! A flat memory of bytes under machine addresses, written a stretch at a time.
Addresses wrap, as the machine's do. Nothing here names a particular
program. -/
namespace RlboxDynamic.ByteMemory
open LittleEndian

abbrev Memory (w : Nat) := BitVec w → Byte

/-- The `n` bytes from an address on. -/
def stretch (addr : BitVec w) (n : Nat) : AddressRange := ⟨addr.toNat, n⟩

/-- The memory with other bytes in a stretch. -/
def write (m : Memory w) (addr : BitVec w) (n : Nat) (byte : Nat → Byte) : Memory w :=
  fun x => if (x - addr).toNat < n then byte (x - addr).toNat else m x

/-- The byte so far behind an address. -/
def read (m : Memory w) (addr : BitVec w) (i : Nat) : Byte := m (addr + BitVec.ofNat w i)

def storeWord (m : Memory w) (addr : BitVec w) (n : Nat) (word : BitVec v) : Memory w :=
  write m addr n fun i => (wordBytes n word).getD i 0

def loadWord (v : Nat) (m : Memory w) (addr : BitVec w) (n : Nat) : BitVec v :=
  bytesWord v ((List.range n).map (read m addr))

def memset (m : Memory w) (addr : BitVec w) (byte : Byte) (n : Nat) : Memory w :=
  write m addr n fun _ => byte

def memcpy (m : Memory w) (dst src : BitVec w) (n : Nat) : Memory w := write m dst n (read m src)

variable {w v n i : Nat} {m m' : Memory w} {addr other x : BitVec w} {byte : Nat → Byte}
  {word : BitVec v}

theorem toNat_add_ofNat (within : addr.toNat + i < 2 ^ w) :
    (addr + BitVec.ofNat w i).toNat = addr.toNat + i := by
  rw [BitVec.toNat_add, BitVec.toNat_ofNat, Nat.add_mod_mod, Nat.mod_eq_of_lt within]

theorem sub_lt_iff (fits : addr.toNat + n ≤ 2 ^ w) :
    (x - addr).toNat < n ↔ x.toNat ∈ (stretch addr n).addresses := by
  have small := x.isLt
  rw [AddressRange.mem_addresses, BitVec.toNat_sub]
  simp only [stretch, AddressRange.stop]
  rcases Nat.lt_or_ge x.toNat addr.toNat with below | above
  · rw [Nat.mod_eq_of_lt (by omega)]
    omega
  · have wrapped : 2 ^ w - addr.toNat + x.toNat = x.toNat - addr.toNat + 2 ^ w := by omega
    rw [wrapped, Nat.add_mod_right, Nat.mod_eq_of_lt (by omega)]
    omega

theorem write_outside (fits : addr.toNat + n ≤ 2 ^ w)
    (outside : x.toNat ∉ (stretch addr n).addresses) : write m addr n byte x = m x :=
  if_neg fun inside => outside ((sub_lt_iff fits).mp inside)

theorem read_write (fits : addr.toNat + n ≤ 2 ^ w) (inside : i < n) :
    read (write m addr n byte) addr i = byte i := by
  have small : i < 2 ^ w := by omega
  have back : (addr + BitVec.ofNat w i - addr).toNat = i := by
    rw [BitVec.add_comm, BitVec.add_sub_cancel, BitVec.toNat_ofNat, Nat.mod_eq_of_lt small]
  rw [read, write, back, if_pos inside]

/-- A stretch apart from the one written is as it was. -/
theorem read_write_apart {k : Nat} (fits : addr.toNat + n ≤ 2 ^ w)
    (fits' : other.toNat + k ≤ 2 ^ w) (apart : (stretch other k).Apart (stretch addr n))
    (inside : i < k) : read (write m addr n byte) other i = read m other i := by
  apply write_outside fits
  rw [toNat_add_ofNat (by omega)]
  apply Set.disjoint_left.mp apart
  rw [AddressRange.mem_addresses]
  simp only [stretch, AddressRange.stop]
  omega

theorem loadWord_congr (same : ∀ i < n, read m addr i = read m' addr i) :
    loadWord v m addr n = loadWord v m' addr n := by
  rw [loadWord, loadWord, List.map_congr_left fun i inside => same i (List.mem_range.mp inside)]

theorem loadWord_storeWord (fits : addr.toNat + n ≤ 2 ^ w) (wide : v ≤ 8 * n) :
    loadWord v (storeWord m addr n word) addr n = word := by
  have bytes : (List.range n).map (read (storeWord m addr n word) addr) = wordBytes n word := by
    apply List.ext_getElem
    · simp
    · intro i inside inside'
      have low : i < n := by simpa using inside
      rw [List.getElem_map, List.getElem_range, storeWord, read_write fits low,
        List.getD_eq_getElem _ _ inside']
  rw [loadWord, bytes, bytesWord_wordBytes word wide]

end RlboxDynamic.ByteMemory
