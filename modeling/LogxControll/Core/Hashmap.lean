/-
  `core/external/github/petewarden/c_hashmap/hashmap.c`: the hash map in which circuits register
  their gates and wires.

  `unsigned long` has 64 bits. An element that is not in use is zeroed, key and data included, so an
  element is an `Option`. `limit` is the largest number of elements that `calloc` still grants; it is
  below 2^31, so doubling the size of a table stays in the range of `int`.
-/
import LogxControll.Lib.Crc
import LogxControll.Lib.ProbeTable
import Mathlib.Algebra.Group.Nat.Defs

namespace LogxControll

/-! ## The hash -/

/-- `crc32_tab` -/
def crc32Tab : List (BitVec 64) :=
  [
    0x00000000, 0x77073096, 0xee0e612c, 0x990951ba, 0x076dc419, 0x706af48f, 0xe963a535,
    0x9e6495a3, 0x0edb8832, 0x79dcb8a4, 0xe0d5e91e, 0x97d2d988, 0x09b64c2b, 0x7eb17cbd,
    0xe7b82d07, 0x90bf1d91, 0x1db71064, 0x6ab020f2, 0xf3b97148, 0x84be41de, 0x1adad47d,
    0x6ddde4eb, 0xf4d4b551, 0x83d385c7, 0x136c9856, 0x646ba8c0, 0xfd62f97a, 0x8a65c9ec,
    0x14015c4f, 0x63066cd9, 0xfa0f3d63, 0x8d080df5, 0x3b6e20c8, 0x4c69105e, 0xd56041e4,
    0xa2677172, 0x3c03e4d1, 0x4b04d447, 0xd20d85fd, 0xa50ab56b, 0x35b5a8fa, 0x42b2986c,
    0xdbbbc9d6, 0xacbcf940, 0x32d86ce3, 0x45df5c75, 0xdcd60dcf, 0xabd13d59, 0x26d930ac,
    0x51de003a, 0xc8d75180, 0xbfd06116, 0x21b4f4b5, 0x56b3c423, 0xcfba9599, 0xb8bda50f,
    0x2802b89e, 0x5f058808, 0xc60cd9b2, 0xb10be924, 0x2f6f7c87, 0x58684c11, 0xc1611dab,
    0xb6662d3d, 0x76dc4190, 0x01db7106, 0x98d220bc, 0xefd5102a, 0x71b18589, 0x06b6b51f,
    0x9fbfe4a5, 0xe8b8d433, 0x7807c9a2, 0x0f00f934, 0x9609a88e, 0xe10e9818, 0x7f6a0dbb,
    0x086d3d2d, 0x91646c97, 0xe6635c01, 0x6b6b51f4, 0x1c6c6162, 0x856530d8, 0xf262004e,
    0x6c0695ed, 0x1b01a57b, 0x8208f4c1, 0xf50fc457, 0x65b0d9c6, 0x12b7e950, 0x8bbeb8ea,
    0xfcb9887c, 0x62dd1ddf, 0x15da2d49, 0x8cd37cf3, 0xfbd44c65, 0x4db26158, 0x3ab551ce,
    0xa3bc0074, 0xd4bb30e2, 0x4adfa541, 0x3dd895d7, 0xa4d1c46d, 0xd3d6f4fb, 0x4369e96a,
    0x346ed9fc, 0xad678846, 0xda60b8d0, 0x44042d73, 0x33031de5, 0xaa0a4c5f, 0xdd0d7cc9,
    0x5005713c, 0x270241aa, 0xbe0b1010, 0xc90c2086, 0x5768b525, 0x206f85b3, 0xb966d409,
    0xce61e49f, 0x5edef90e, 0x29d9c998, 0xb0d09822, 0xc7d7a8b4, 0x59b33d17, 0x2eb40d81,
    0xb7bd5c3b, 0xc0ba6cad, 0xedb88320, 0x9abfb3b6, 0x03b6e20c, 0x74b1d29a, 0xead54739,
    0x9dd277af, 0x04db2615, 0x73dc1683, 0xe3630b12, 0x94643b84, 0x0d6d6a3e, 0x7a6a5aa8,
    0xe40ecf0b, 0x9309ff9d, 0x0a00ae27, 0x7d079eb1, 0xf00f9344, 0x8708a3d2, 0x1e01f268,
    0x6906c2fe, 0xf762575d, 0x806567cb, 0x196c3671, 0x6e6b06e7, 0xfed41b76, 0x89d32be0,
    0x10da7a5a, 0x67dd4acc, 0xf9b9df6f, 0x8ebeeff9, 0x17b7be43, 0x60b08ed5, 0xd6d6a3e8,
    0xa1d1937e, 0x38d8c2c4, 0x4fdff252, 0xd1bb67f1, 0xa6bc5767, 0x3fb506dd, 0x48b2364b,
    0xd80d2bda, 0xaf0a1b4c, 0x36034af6, 0x41047a60, 0xdf60efc3, 0xa867df55, 0x316e8eef,
    0x4669be79, 0xcb61b38c, 0xbc66831a, 0x256fd2a0, 0x5268e236, 0xcc0c7795, 0xbb0b4703,
    0x220216b9, 0x5505262f, 0xc5ba3bbe, 0xb2bd0b28, 0x2bb45a92, 0x5cb36a04, 0xc2d7ffa7,
    0xb5d0cf31, 0x2cd99e8b, 0x5bdeae1d, 0x9b64c2b0, 0xec63f226, 0x756aa39c, 0x026d930a,
    0x9c0906a9, 0xeb0e363f, 0x72076785, 0x05005713, 0x95bf4a82, 0xe2b87a14, 0x7bb12bae,
    0x0cb61b38, 0x92d28e9b, 0xe5d5be0d, 0x7cdcefb7, 0x0bdbdf21, 0x86d3d2d4, 0xf1d4e242,
    0x68ddb3f8, 0x1fda836e, 0x81be16cd, 0xf6b9265b, 0x6fb077e1, 0x18b74777, 0x88085ae6,
    0xff0f6a70, 0x66063bca, 0x11010b5c, 0x8f659eff, 0xf862ae69, 0x616bffd3, 0x166ccf45,
    0xa00ae278, 0xd70dd2ee, 0x4e048354, 0x3903b3c2, 0xa7672661, 0xd06016f7, 0x4969474d,
    0x3e6e77db, 0xaed16a4a, 0xd9d65adc, 0x40df0b66, 0x37d83bf0, 0xa9bcae53, 0xdebb9ec5,
    0x47b2cf7f, 0x30b5ffe9, 0xbdbdf21c, 0xcabac28a, 0x53b39330, 0x24b4a3a6, 0xbad03605,
    0xcdd70693, 0x54de5729, 0x23d967bf, 0xb3667a2e, 0xc4614ab8, 0x5d681b02, 0x2a6f2b94,
    0xb40bbe37, 0xc30c8ea1, 0x5a05df1b, 0x2d02ef8d]

/-- A `char` that is read through `const unsigned char *` and goes into an `unsigned long`. -/
def ofChar (b : UInt8) : BitVec 64 := BitVec.ofNat 64 b.toNat

/-- The bytes of a C string. -/
def bytesOf (s : String) : List (BitVec 64) := s.toByteArray.data.toList.map ofChar

/-- The CRC of a buffer. Its length is the number of elements of the list. -/
def crc32 (s : List (BitVec 64)) : BitVec 64 :=
  Crc.byTable (fun i => crc32Tab.getD i.toNat 0) s 0

/-- The polynomial X^32 + X^26 + X^23 + X^22 + X^16 + X^12 + X^11 + X^10 + X^8 + X^7 + X^5 + X^4 +
    X^2 + X + 1, highest power in the lowest bit. -/
def crc32Poly : BitVec 64 := 0xedb88320

theorem crc32Tab_eq (i : BitVec 64) (hi : i.toNat < 256) :
    crc32Tab.getD i.toNat 0 = Crc.shifts crc32Poly 8 i := by
  have hall : ∀ n : Fin 256, crc32Tab.getD n 0 = Crc.shifts crc32Poly 8 (BitVec.ofNat 64 n) := by
    decide +kernel
  have h := hall ⟨i.toNat, hi⟩
  rwa [BitVec.ofNat_toNat, BitVec.setWidth_eq] at h

/-- The table computes the remainder by the polynomial, which a bit at a time computes too. -/
theorem crc32_eq_byBits (s : List UInt8) :
    crc32 (s.map ofChar) = Crc.byBits crc32Poly (s.map ofChar) 0 := by
  refine Crc.byTable_eq_byBits crc32Poly crc32Tab_eq (fun b hb => ?_) 0
  obtain ⟨c, -, rfl⟩ := List.mem_map.mp hb
  rw [ofChar, BitVec.toNat_ofNat]
  exact lt_of_le_of_lt (Nat.mod_le _ _) c.toNat_lt

/-- `hashmap_hash_int` before the remainder of the table size is taken. -/
def hashmapMix (key : BitVec 64) : BitVec 64 :=
  let key := key + (key <<< 12)
  let key := key ^^^ (key >>> 22)
  let key := key + (key <<< 4)
  let key := key ^^^ (key >>> 9)
  let key := key + (key <<< 10)
  let key := key ^^^ (key >>> 2)
  let key := key + (key <<< 7)
  let key := key ^^^ (key >>> 12)
  (key >>> 3) * 2654435761#64

/-- `hashmap_hash_int` -/
def hashmapHashInt (tableSize : ℕ) (keystring : String) : ℕ :=
  (hashmapMix (crc32 (bytesOf keystring))).toNat % tableSize

/-! ## The map -/

/-- The size of a new table. -/
def INITIAL_SIZE : ℕ := 256

/-- How many elements a key is looked for in. -/
def MAX_CHAIN_LENGTH : ℕ := 8

/-- `hashmap_map`. The key is the string that the pointer of the element points to. -/
structure HashmapMap (α : Type) where
  tableSize : ℕ
  size : Int
  data : List (Option (String × α))
  deriving Repr, DecidableEq

/-- `MAP_MISSING`, `MAP_OMEM` and `MAP_OK`. -/
inductive MapStatus where
  | missing
  | omem
  | ok
  deriving Repr, DecidableEq

section Map

variable {α : Type}

/-- The element at an index. -/
def HashmapMap.at_ (m : HashmapMap α) (i : ℕ) : Option (String × α) := m.data.getD i none

/-- `hashmap_new` -/
def hashmapNew : HashmapMap α :=
  { tableSize := INITIAL_SIZE, size := 0, data := List.replicate INITIAL_SIZE none }

/-- The probing loop of `hashmap_hash`; no index is `MAP_FULL`. -/
def hashmapHashLoop (m : HashmapMap α) (key : String) : ℕ → ℕ → Option ℕ
  | 0, _ => none
  | n + 1, curr =>
    match m.at_ curr with
    | none => some curr
    | some (k, _) =>
      if k = key then some curr else hashmapHashLoop m key n ((curr + 1) % m.tableSize)

/-- `hashmap_hash`: where a key may be stored. A table that is half full counts as full. -/
def hashmapHash (m : HashmapMap α) (key : String) : Option ℕ :=
  if m.size ≥ (m.tableSize / 2 : ℕ) then none
  else hashmapHashLoop m key MAX_CHAIN_LENGTH (hashmapHashInt m.tableSize key)

/-- The loop of `hashmap_rehash` over the elements of the old table. -/
def rehashElements (put : HashmapMap α → String → α → MapStatus × HashmapMap α) :
    List (Option (String × α)) → HashmapMap α → MapStatus × HashmapMap α
  | [], m => (.ok, m)
  | none :: es, m => rehashElements put es m
  | some (key, data) :: es, m =>
    match put m key data with
    | (.ok, m) => rehashElements put es m
    | (status, m) => (status, m)

/-- `hashmap_rehash`: the elements are put one by one into a table of twice the size. When `calloc`
    refuses, the map stays as it is. -/
def hashmapRehash (limit : ℕ) (put : HashmapMap α → String → α → MapStatus × HashmapMap α)
    (m : HashmapMap α) : MapStatus × HashmapMap α :=
  if 2 * m.tableSize ≤ limit then
    rehashElements put m.data
      { tableSize := 2 * m.tableSize, size := 0, data := List.replicate (2 * m.tableSize) none }
  else
    (.omem, m)

/-- `hashmap_put` and `hashmap_rehash` call each other, and every rehashing doubles the table: no call
    goes deeper than `fuel` (`putFuel_succ`). -/
def putFuel (limit : ℕ) : ℕ → HashmapMap α → String → α → MapStatus × HashmapMap α
  | 0, m, _, _ => (.omem, m)
  | fuel + 1, m, key, value =>
    match hashmapHash m key with
    | some index =>
      (.ok, { m with data := m.data.set index (some (key, value)), size := m.size + 1 })
    | none =>
      match hashmapRehash limit (putFuel limit fuel) m with
      | (.omem, m) => (.omem, m)
      | (_, m) => putFuel limit fuel m key value

/-- `hashmap_put`. The fuel outlasts all doublings that the limit allows. -/
def hashmapPut (limit : Fin (2 ^ 31)) (m : HashmapMap α) (key : String) (value : α) :
    MapStatus × HashmapMap α :=
  putFuel limit (limit + 1) m key value

/-- The probing loop of `hashmap_get` and `hashmap_remove`: the index of the element with the key. -/
def findKey (m : HashmapMap α) (key : String) : ℕ → ℕ → Option ℕ
  | 0, _ => none
  | n + 1, curr =>
    match m.at_ curr with
    | none => findKey m key n ((curr + 1) % m.tableSize)
    | some (k, _) => if k = key then some curr else findKey m key n ((curr + 1) % m.tableSize)

/-- The status, and what is stored through `arg`. -/
def hashmapGet (m : HashmapMap α) (key : String) : MapStatus × Option α :=
  match findKey m key MAX_CHAIN_LENGTH (hashmapHashInt m.tableSize key) with
  | some curr => (.ok, (m.at_ curr).map Prod.snd)
  | none => (.missing, none)

/-- `hashmap_remove`: the element is blanked out, the elements behind it stay where they are. -/
def hashmapRemove (m : HashmapMap α) (key : String) : MapStatus × HashmapMap α :=
  match findKey m key MAX_CHAIN_LENGTH (hashmapHashInt m.tableSize key) with
  | some curr => (.ok, { m with data := m.data.set curr none, size := m.size - 1 })
  | none => (.missing, m)

/-- `hashmap_length`: what was counted, also when a key was stored twice. -/
def hashmapLength (m : HashmapMap α) : Int := m.size

/-- The loop of `hashmap_iterate`. The function it calls returns a status, 0 being `MAP_OK`. -/
def iterateElements {σ : Type} (f : α → σ → Int × σ) : List (Option (String × α)) → σ → Int × σ
  | [], s => (0, s)
  | none :: es, s => iterateElements f es s
  | some (_, data) :: es, s =>
    match f data s with
    | (0, s) => iterateElements f es s
    | (status, s) => (status, s)

/-- As `hashmap_iterate` returns it. -/
def MAP_MISSING : Int := -3

/-- `hashmap_iterate` -/
def hashmapIterate {σ : Type} (m : HashmapMap α) (f : α → σ → Int × σ) (s : σ) : Int × σ :=
  if hashmapLength m ≤ 0 then (MAP_MISSING, s) else iterateElements f m.data s

end Map

end LogxControll
