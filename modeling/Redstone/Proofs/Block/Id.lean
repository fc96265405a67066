import Mathlib.Data.Nat.Bitwise
import Redstone.Block.Id

/-!
# Blocks and their ids

The fields of an id do not overlap, so an id is the sum of its fields, each multiplied by its weight.
A block whose properties fit into their fields is found again in its id.  The other way round, the
fields use up all bits of an id, so a word that is unpacked is the id of its block, and the only words
that are not unpacked have bits above the fields or an unknown material or facing.
-/

namespace Redstone.Block

/-- The material and the facing are known, and every property fits into its field of an id. -/
structure InRange (b : Block) : Prop where
  material_le : b.material.code ≤ Material.container.code
  facing_le : b.facing.code ≤ Direction.east.code
  delay_le : b.delay ≤ 7
  power_le : b.power ≤ 15
  instrument_le : b.instrument ≤ 31
  note_le : b.note ≤ 31

/-! ## Fields of a word -/

theorem toNat_packField (v : UInt8) (width : Nat) {mask : UInt8} {shift : UInt32}
    (hmask : mask.toNat = 2 ^ width - 1) (hfit : shift.toNat + width ≤ 28) :
    (packField v mask shift).toNat = v.toNat % 2 ^ width * 2 ^ shift.toNat := by
  have hlt : v.toNat % 2 ^ width * 2 ^ shift.toNat < 2 ^ 32 := by
    calc v.toNat % 2 ^ width * 2 ^ shift.toNat < 2 ^ width * 2 ^ shift.toNat :=
          Nat.mul_lt_mul_of_pos_right (Nat.mod_lt _ (Nat.two_pow_pos _)) (Nat.two_pow_pos _)
      _ = 2 ^ (shift.toNat + width) := by rw [← Nat.pow_add, Nat.add_comm]
      _ ≤ 2 ^ 32 := Nat.pow_le_pow_right (by decide) (by omega)
  have hmod : shift.toNat % 32 = shift.toNat := Nat.mod_eq_of_lt (by omega)
  rw [packField, UInt32.toNat_shiftLeft, UInt8.toNat_toUInt32, UInt8.toNat_and, hmask,
    Nat.and_two_pow_sub_one_eq_mod, hmod, Nat.shiftLeft_eq, Nat.mod_eq_of_lt hlt]

theorem toNat_packFlag (b : Bool) {n : UInt32} (hfit : n.toNat < 28) :
    (packFlag b n).toNat = b.toNat * 2 ^ n.toNat := by
  have hlt : 2 ^ n.toNat < 2 ^ 32 := Nat.pow_lt_pow_right (by decide) (by omega)
  have hmod : n.toNat % 32 = n.toNat := Nat.mod_eq_of_lt (by omega)
  cases b with
  | false => exact (Nat.zero_mul _).symm
  | true =>
      rw [packFlag, if_pos rfl, UInt32.toNat_shiftLeft, hmod, Nat.shiftLeft_eq]
      exact Nat.mod_eq_of_lt (by simpa using hlt)

theorem toNat_field (id : UInt32) (width : Nat) {mask : UInt8} {shift : UInt32}
    (hmask : mask.toNat = 2 ^ width - 1) (hwidth : width ≤ 8) (hshift : shift.toNat < 32) :
    (field id mask shift).toNat = id.toNat / 2 ^ shift.toNat % 2 ^ width := by
  have hmod : shift.toNat % 32 = shift.toNat := Nat.mod_eq_of_lt hshift
  have hlt : id.toNat / 2 ^ shift.toNat % 2 ^ width < 2 ^ 8 :=
    Nat.lt_of_lt_of_le (Nat.mod_lt _ (Nat.two_pow_pos _)) (Nat.pow_le_pow_right (by decide) hwidth)
  rw [field, UInt32.toNat_toUInt8, UInt32.toNat_and, UInt32.toNat_shiftRight, UInt8.toNat_toUInt32,
    hmask, Nat.and_two_pow_sub_one_eq_mod, hmod, Nat.shiftRight_eq_div_pow, Nat.mod_eq_of_lt hlt]

theorem flag_eq_testBit (id : UInt32) {n : UInt32} (hn : n.toNat < 32) :
    flag id n = id.toNat.testBit n.toNat := by
  have hone : ((1 : UInt32) <<< n).toNat = 2 ^ n.toNat := by
    have hlt : 1 * 2 ^ n.toNat < 2 ^ 32 := by
      rw [Nat.one_mul]
      exact Nat.pow_lt_pow_right (by decide) hn
    rw [UInt32.toNat_shiftLeft, Nat.mod_eq_of_lt hn, Nat.shiftLeft_eq]
    exact (Nat.mod_eq_of_lt hlt).trans (Nat.one_mul _)
  have hbit : (id &&& (1 <<< n)).toNat = (id.toNat.testBit n.toNat).toNat * 2 ^ n.toNat := by
    rw [UInt32.toNat_and, hone, Nat.and_two_pow]
  rw [flag, Bool.eq_iff_iff, bne_iff_ne, ne_eq, ← UInt32.toNat_inj, hbit]
  cases id.toNat.testBit n.toNat <;> simp

/-! ## Packing a word from its low end -/

/-- The word `x` is the number `t` and uses the lowest `n` bits only. -/
def Fills (x : UInt32) (n t : Nat) : Prop :=
  x.toNat = t ∧ t < 2 ^ n

/-- Bits above those in use are added. -/
theorem Fills.append {x y : UInt32} {n t width a : Nat} (h : Fills x n t)
    (hy : y.toNat = a * 2 ^ n) (ha : a < 2 ^ width) :
    Fills (x ||| y) (n + width) (t + a * 2 ^ n) := by
  obtain ⟨rfl, hlt⟩ := h
  constructor
  · rw [UInt32.toNat_or, hy, Nat.or_comm, ← Nat.shiftLeft_eq, ← Nat.shiftLeft_add_eq_or_of_lt hlt,
      Nat.add_comm]
  · calc x.toNat + a * 2 ^ n < 2 ^ n + a * 2 ^ n := Nat.add_lt_add_right hlt _
      _ = (a + 1) * 2 ^ n := by rw [Nat.add_mul, Nat.one_mul, Nat.add_comm]
      _ ≤ 2 ^ width * 2 ^ n := Nat.mul_le_mul_right _ ha
      _ = 2 ^ (n + width) := by rw [← Nat.pow_add, Nat.add_comm]

theorem Fills.field {x : UInt32} {n t : Nat} (h : Fills x n t) (v : UInt8) (width : Nat)
    {mask : UInt8} {shift : UInt32} (hshift : shift.toNat = n)
    (hmask : mask.toNat = 2 ^ width - 1) (hfit : n + width ≤ 28) :
    Fills (x ||| packField v mask shift) (n + width) (t + v.toNat % 2 ^ width * 2 ^ n) := by
  subst hshift
  exact h.append (toNat_packField v width hmask hfit) (Nat.mod_lt _ (Nat.two_pow_pos _))

theorem Fills.flag {x : UInt32} {n t : Nat} (h : Fills x n t) (b : Bool) {shift : UInt32}
    (hshift : shift.toNat = n) (hfit : n < 28) :
    Fills (x ||| packFlag b shift) (n + 1) (t + b.toNat * 2 ^ n) := by
  subst hshift
  exact h.append (toNat_packFlag b hfit) b.toNat_lt

/-- An id is the sum of its fields, each with its weight. -/
theorem toNat_id (b : Block) :
    b.id.toNat = b.material.code.toNat % 2 ^ 5 + b.facing.code.toNat % 2 ^ 3 * 2 ^ 5 +
      b.delay.toNat % 2 ^ 3 * 2 ^ 8 + b.locked.toNat * 2 ^ 11 + b.powered.toNat * 2 ^ 12 +
      b.subtract.toNat * 2 ^ 13 + b.power.toNat % 2 ^ 4 * 2 ^ 14 +
      b.instrument.toNat % 2 ^ 5 * 2 ^ 18 + b.note.toNat % 2 ^ 5 * 2 ^ 23 := by
  suffices h : Fills b.id 28 _ from h.1
  unfold id
  refine .field (n := 23) ?_ b.note 5 rfl rfl (by decide)
  refine .field (n := 18) ?_ b.instrument 5 rfl rfl (by decide)
  refine .field (n := 14) ?_ b.power 4 rfl rfl (by decide)
  refine .flag (n := 13) ?_ b.subtract rfl (by decide)
  refine .flag (n := 12) ?_ b.powered rfl (by decide)
  refine .flag (n := 11) ?_ b.locked rfl (by decide)
  refine .field (n := 8) ?_ b.delay 3 rfl rfl (by decide)
  refine .field (n := 5) ?_ b.facing.code 3 rfl rfl (by decide)
  refine ⟨?_, Nat.mod_lt _ (by decide)⟩
  rw [toNat_packField _ 5 rfl (by decide)]
  exact Nat.mul_one _

/-- In the id of a block in range, no field loses its high bits. -/
theorem InRange.toNat_id {b : Block} (h : b.InRange) :
    b.id.toNat = b.material.code.toNat + b.facing.code.toNat * 2 ^ 5 + b.delay.toNat * 2 ^ 8 +
      b.locked.toNat * 2 ^ 11 + b.powered.toNat * 2 ^ 12 + b.subtract.toNat * 2 ^ 13 +
      b.power.toNat * 2 ^ 14 + b.instrument.toNat * 2 ^ 18 + b.note.toNat * 2 ^ 23 := by
  have hmod {v bound : UInt8} {width : Nat} (hv : v ≤ bound) (hfit : bound.toNat < 2 ^ width) :
      v.toNat % 2 ^ width = v.toNat :=
    Nat.mod_eq_of_lt (Nat.lt_of_le_of_lt (UInt8.le_iff_toNat_le.mp hv) hfit)
  rw [Block.toNat_id, hmod h.material_le (by decide), hmod h.facing_le (by decide),
    hmod h.delay_le (by decide), hmod h.power_le (by decide), hmod h.instrument_le (by decide),
    hmod h.note_le (by decide)]

theorem field_eq {id : UInt32} {v : UInt8} (width : Nat) {mask : UInt8} {shift : UInt32}
    (hmask : mask.toNat = 2 ^ width - 1) (hwidth : width ≤ 8) (hshift : shift.toNat < 32)
    (hv : id.toNat / 2 ^ shift.toNat % 2 ^ width = v.toNat) : field id mask shift = v := by
  apply UInt8.toNat_inj.mp
  rw [toNat_field _ width hmask hwidth hshift, hv]

theorem flag_eq {id : UInt32} {v : Bool} {n : UInt32} (hn : n.toNat < 32)
    (hv : id.toNat / 2 ^ n.toNat % 2 = v.toNat) : flag id n = v := by
  rw [flag_eq_testBit _ hn, Nat.testBit_eq_decide_div_mod_eq, hv]
  cases v <;> rfl

/-- A block in range is found again in its id. -/
theorem ofId_id {b : Block} (h : b.InRange) : ofId b.id = .ok b := by
  have hsum := h.toNat_id
  have hmaterial : b.material.code.toNat ≤ 13 := UInt8.le_iff_toNat_le.mp h.material_le
  have hfacing : b.facing.code.toNat ≤ 5 := UInt8.le_iff_toNat_le.mp h.facing_le
  have hdelay : b.delay.toNat ≤ 7 := UInt8.le_iff_toNat_le.mp h.delay_le
  have hpower : b.power.toNat ≤ 15 := UInt8.le_iff_toNat_le.mp h.power_le
  have hinstrument : b.instrument.toNat ≤ 31 := UInt8.le_iff_toNat_le.mp h.instrument_le
  have hnote : b.note.toNat ≤ 31 := UInt8.le_iff_toNat_le.mp h.note_le
  have hlocked := b.locked.toNat_lt
  have hpowered := b.powered.toNat_lt
  have hsubtract := b.subtract.toNat_lt
  -- each field is a digit of the sum
  have hmaterial' : materialField b.id = b.material.code :=
    field_eq 5 rfl (by decide) (by decide) (show _ / 2 ^ 0 % 2 ^ 5 = _ by omega)
  have hfacing' : facingField b.id = b.facing.code :=
    field_eq 3 rfl (by decide) (by decide) (show _ / 2 ^ 5 % 2 ^ 3 = _ by omega)
  have hdelay' : field b.id 0x7 8 = b.delay :=
    field_eq 3 rfl (by decide) (by decide) (show _ / 2 ^ 8 % 2 ^ 3 = _ by omega)
  have hlocked' : flag b.id 11 = b.locked :=
    flag_eq (by decide) (show _ / 2 ^ 11 % 2 = _ by omega)
  have hpowered' : flag b.id 12 = b.powered :=
    flag_eq (by decide) (show _ / 2 ^ 12 % 2 = _ by omega)
  have hsubtract' : flag b.id 13 = b.subtract :=
    flag_eq (by decide) (show _ / 2 ^ 13 % 2 = _ by omega)
  have hpower' : field b.id 0xF 14 = b.power :=
    field_eq 4 rfl (by decide) (by decide) (show _ / 2 ^ 14 % 2 ^ 4 = _ by omega)
  have hinstrument' : field b.id 0x1F 18 = b.instrument :=
    field_eq 5 rfl (by decide) (by decide) (show _ / 2 ^ 18 % 2 ^ 5 = _ by omega)
  have hnote' : field b.id 0x1F 23 = b.note :=
    field_eq 5 rfl (by decide) (by decide) (show _ / 2 ^ 23 % 2 ^ 5 = _ by omega)
  have hexcess : b.id >>> 28 = 0 := by
    apply UInt32.toNat_inj.mp
    rw [UInt32.toNat_shiftRight, Nat.shiftRight_eq_div_pow]
    show _ / 2 ^ 28 = 0
    omega
  rw [ofId, hmaterial', if_neg (UInt8.not_lt.mpr h.material_le), hexcess, if_neg (by decide),
    hfacing', if_neg (UInt8.not_lt.mpr h.facing_le), hdelay', hlocked', hpowered', hsubtract', hpower',
    hinstrument', hnote', Material.ofCode_code, Direction.ofCode_code]

/-! ## Unpacking a word -/

theorem toNat_materialField (id : UInt32) : (materialField id).toNat = id.toNat % 2 ^ 5 := by
  rw [materialField, toNat_field id 5 rfl (by decide) (by decide)]
  show id.toNat / 2 ^ 0 % 2 ^ 5 = _
  rw [Nat.pow_zero, Nat.div_one]

theorem toNat_facingField (id : UInt32) : (facingField id).toNat = id.toNat / 2 ^ 5 % 2 ^ 3 :=
  toNat_field id 3 rfl (by decide) (by decide)

theorem toNat_flag (id : UInt32) {n : UInt32} (hn : n.toNat < 32) :
    (flag id n).toNat = id.toNat / 2 ^ n.toNat % 2 := by
  rw [flag_eq_testBit id hn, Nat.toNat_testBit]

/-- The block in the fields of a word. -/
def unpacked (id : UInt32) : Block where
  material := Material.ofCode (materialField id)
  facing := Direction.ofCode (facingField id)
  delay := field id 0x7 8
  locked := flag id 11
  powered := flag id 12
  subtract := flag id 13
  power := field id 0xF 14
  instrument := field id 0x1F 18
  note := field id 0x1F 23

/-- The highest digit of a number is split off. -/
theorem mod_two_pow_add (x shift width : Nat) :
    x % 2 ^ (shift + width) = x % 2 ^ shift + x / 2 ^ shift % 2 ^ width * 2 ^ shift := by
  rw [Nat.pow_add, Nat.mod_mul, Nat.mul_comm]

/-- A word without bits above the fields is packed from its fields. -/
theorem id_unpacked {id : UInt32} (h : id.toNat < 2 ^ 28) : (unpacked id).id = id := by
  have hmaterial : (unpacked id).material.code.toNat = id.toNat % 2 ^ 5 := by
    rw [unpacked, Material.code_ofCode, toNat_materialField]
  have hfacing : (unpacked id).facing.code.toNat = id.toNat / 2 ^ 5 % 2 ^ 3 := by
    rw [unpacked, Direction.code_ofCode, toNat_facingField]
  have hdelay : (unpacked id).delay.toNat = id.toNat / 2 ^ 8 % 2 ^ 3 :=
    toNat_field id 3 rfl (by decide) (by decide)
  have hlocked : (unpacked id).locked.toNat = id.toNat / 2 ^ 11 % 2 := toNat_flag id (by decide)
  have hpowered : (unpacked id).powered.toNat = id.toNat / 2 ^ 12 % 2 := toNat_flag id (by decide)
  have hsubtract : (unpacked id).subtract.toNat = id.toNat / 2 ^ 13 % 2 := toNat_flag id (by decide)
  have hpower : (unpacked id).power.toNat = id.toNat / 2 ^ 14 % 2 ^ 4 :=
    toNat_field id 4 rfl (by decide) (by decide)
  have hinstrument : (unpacked id).instrument.toNat = id.toNat / 2 ^ 18 % 2 ^ 5 :=
    toNat_field id 5 rfl (by decide) (by decide)
  have hnote : (unpacked id).note.toNat = id.toNat / 2 ^ 23 % 2 ^ 5 :=
    toNat_field id 5 rfl (by decide) (by decide)
  apply UInt32.toNat_inj.mp
  rw [toNat_id, hmaterial, hfacing, hdelay, hlocked, hpowered, hsubtract, hpower, hinstrument, hnote]
  simp only [Nat.mod_mod]
  -- a word below `2 ^ 28` splits into its digits, from the high end down
  symm
  calc id.toNat = id.toNat % 2 ^ 28 := (Nat.mod_eq_of_lt h).symm
    _ = _ := by
      rw [mod_two_pow_add _ 23 5, mod_two_pow_add _ 18 5, mod_two_pow_add _ 14 4,
        mod_two_pow_add _ 13 1, mod_two_pow_add _ 12 1, mod_two_pow_add _ 11 1,
        mod_two_pow_add _ 8 3, mod_two_pow_add _ 5 3]
      rfl

/-- The word has no bits above the fields, and its material and its facing are known. -/
structure Readable (id : UInt32) : Prop where
  lt : id.toNat < 2 ^ 28
  material_le : id.toNat % 2 ^ 5 ≤ Material.container.code.toNat
  facing_le : id.toNat / 2 ^ 5 % 2 ^ 3 ≤ Direction.east.code.toNat

theorem Readable.inRange {id : UInt32} (h : Readable id) : (unpacked id).InRange := by
  have hdigit {mask bound : UInt8} {shift : UInt32} (width : Nat) (hmask : mask.toNat = 2 ^ width - 1)
      (hwidth : width ≤ 8) (hshift : shift.toNat < 32) (hbound : 2 ^ width - 1 ≤ bound.toNat) :
      field id mask shift ≤ bound := by
    have hlt : (field id mask shift).toNat < 2 ^ width := by
      rw [toNat_field id width hmask hwidth hshift]
      exact Nat.mod_lt _ (Nat.two_pow_pos _)
    apply UInt8.le_iff_toNat_le.mpr
    omega
  constructor
  case material_le =>
    rw [unpacked, Material.code_ofCode, UInt8.le_iff_toNat_le, toNat_materialField]
    exact h.material_le
  case facing_le =>
    rw [unpacked, Direction.code_ofCode, UInt8.le_iff_toNat_le, toNat_facingField]
    exact h.facing_le
  case delay_le => exact hdigit 3 rfl (by decide) (by decide) (by decide)
  case power_le => exact hdigit 4 rfl (by decide) (by decide) (by decide)
  case instrument_le => exact hdigit 5 rfl (by decide) (by decide) (by decide)
  case note_le => exact hdigit 5 rfl (by decide) (by decide) (by decide)

/-- Exactly the readable words are unpacked. -/
theorem ofId_eq_ok_iff {id : UInt32} {b : Block} :
    ofId id = .ok b ↔ Readable id ∧ unpacked id = b := by
  have hexcess : id >>> 28 = 0 ↔ id.toNat < 2 ^ 28 := by
    rw [← UInt32.toNat_inj, UInt32.toNat_shiftRight, Nat.shiftRight_eq_div_pow]
    show id.toNat / 2 ^ 28 = 0 ↔ _
    omega
  constructor
  · intro h
    unfold ofId at h
    split at h
    · cases h
    case isFalse hmaterial =>
    split at h
    · cases h
    case isFalse hhigh =>
    split at h
    · cases h
    case isFalse hfacing =>
    have hlt : id.toNat < 2 ^ 28 := hexcess.mp (by simpa using hhigh)
    rw [UInt8.not_lt, UInt8.le_iff_toNat_le, toNat_materialField] at hmaterial
    rw [UInt8.not_lt, UInt8.le_iff_toNat_le, toNat_facingField] at hfacing
    exact ⟨⟨hlt, hmaterial, hfacing⟩, Except.ok.inj h⟩
  · rintro ⟨h, rfl⟩
    rw [← ofId_id h.inRange, id_unpacked h.lt]

end Redstone.Block
