import Redstone.Gate.Logic
import Redstone.Proofs.Block.Id
import Redstone.Proofs.Space.Region
import Redstone.World.Reader

/-!
# What a world file can say

Names and numbers are checked when they are read, so the blocks of a world that has been read are
in range: each one is found again in its id, and none has more power than the strongest signal.  A
world with blocks has an extent, which is a valid region and holds all of them.
-/

namespace Redstone

theorem Integer.ofDecimalIn?_eq_some {lo hi n : Int} {b : Bytes}
    (h : ofDecimalIn? lo hi b = some n) : lo ≤ n ∧ n ≤ hi := by
  unfold ofDecimalIn? at h
  rw [Option.filter_eq_some_iff] at h
  simpa using h.2

namespace World

/-- Every block of the world is in range, and none is air. -/
def InRange (w : World) : Prop :=
  ∀ (p : Position) (b : Block), w.blocks[p]? = some b → b.InRange ∧ b.material ≠ .air

/-- No block has more power than the strongest signal. -/
def Powered (w : World) : Prop :=
  ∀ p, (w.get p).power ≤ maxStrength

/-! ## Reading a block -/

theorem readNumber_le {property : Property} {lo hi : Nat} {value : Bytes} {n : UInt8}
    (h : readNumber property lo hi value = .ok n) (hhi : hi < 256) : n.toNat ≤ hi := by
  unfold readNumber at h
  split at h
  case h_2 => cases h
  case h_1 v hv =>
    cases h
    obtain ⟨hlo, hle⟩ := Integer.ofDecimalIn?_eq_some hv
    have hbound : v.toNat < 256 := by omega
    have hvalue : (UInt8.ofNat v.toNat).toNat = v.toNat := UInt8.toNat_ofNat_of_lt' hbound
    omega

theorem readDirection_le {value : Bytes} {d : Direction} (h : readDirection value = .ok d) :
    d.code ≤ Direction.east.code := by
  have hall : ∀ d ∈ Direction.all, d.code ≤ Direction.east.code := by decide
  unfold readDirection at h
  split at h
  case h_2 => cases h
  case h_1 hd =>
    cases h
    exact hall d (List.mem_of_find?_eq_some hd)

/-- A property is checked when it is read, and the others stay as they are. -/
theorem inRange_of_setProperty {b b' : Block} {value : Bytes} {property : Property}
    (h : setProperty b value property = .ok b') (hb : b.InRange) : b'.InRange := by
  have hmap {α : Type} {x : Except LineError α} {f : α → Block}
      (hx : x.map f = .ok b') : ∃ a, x = .ok a ∧ f a = b' := by
    cases x with
    | error e => cases hx
    | ok a => exact ⟨a, rfl, Except.ok.inj hx⟩
  have hnumber {property : Property} {lo hi : Nat} {n bound : UInt8}
      (hn : readNumber property lo hi value = .ok n) (hhi : hi ≤ bound.toNat) : n ≤ bound := by
    have hlt := Nat.lt_of_le_of_lt hhi bound.toNat_lt
    exact UInt8.le_iff_toNat_le.mpr (Nat.le_trans (readNumber_le hn hlt) hhi)
  cases property with
  | facing =>
      obtain ⟨d, hd, rfl⟩ := hmap h
      exact { hb with facing_le := readDirection_le hd }
  | delay =>
      obtain ⟨n, hn, rfl⟩ := hmap h
      exact { hb with delay_le := hnumber hn (by decide) }
  | power =>
      obtain ⟨n, hn, rfl⟩ := hmap h
      exact { hb with power_le := hnumber hn (by decide) }
  | instrument =>
      obtain ⟨n, hn, rfl⟩ := hmap h
      exact { hb with instrument_le := hnumber hn (by decide) }
  | note =>
      obtain ⟨n, hn, rfl⟩ := hmap h
      exact { hb with note_le := hnumber hn (by decide) }
  -- the others have no bound
  | _ =>
      obtain ⟨a, -, rfl⟩ := hmap h
      exact { hb with }

theorem inRange_of_readProperty {b b' : Block} {field : Bytes}
    (h : readProperty b field = .ok b') (hb : b.InRange) : b'.InRange := by
  unfold readProperty at h
  split at h
  · cases h
  · dsimp only at h
    split at h
    · cases h
    · exact inRange_of_setProperty h hb

theorem inRange_of_foldlM {b b' : Block} {fields : List Bytes}
    (h : fields.foldlM readProperty b = .ok b') (hb : b.InRange) : b'.InRange := by
  induction fields generalizing b with
  | nil =>
      cases h
      exact hb
  | cons field rest ih =>
      rw [List.foldlM_cons] at h
      cases hfirst : readProperty b field with
      | error e =>
          rw [hfirst] at h
          cases h
      | ok next =>
          rw [hfirst] at h
          exact ih h (inRange_of_readProperty hfirst hb)

/-- Only known materials have names. -/
theorem inRange_placed {name : Bytes} {m : Material} (h : Material.ofName? name = some m) :
    (Block.placed m).InRange := by
  have hm : m ∈ Material.all := List.mem_of_find?_eq_some h
  simp only [Material.all, List.mem_cons, List.not_mem_nil, or_false] at hm
  rcases hm with rfl | rfl | rfl | rfl | rfl | rfl | rfl | rfl | rfl | rfl | rfl | rfl | rfl | rfl <;>
    exact ⟨by decide, by decide, by decide, by decide, by decide, by decide⟩

theorem inRange_of_readFields {fields : List Bytes} {p : Position} {b : Block}
    (h : readFields fields = .ok (p, b)) : b.InRange := by
  unfold readFields at h
  split at h
  case h_2 => cases h
  case h_1 x y z name properties =>
    cases hx : readCoordinate x with
    | error e => simp [hx, bind, Except.bind] at h
    | ok cx =>
    cases hy : readCoordinate y with
    | error e => simp [hx, hy, bind, Except.bind] at h
    | ok cy =>
    cases hz : readCoordinate z with
    | error e => simp [hx, hy, hz, bind, Except.bind] at h
    | ok cz =>
    simp only [hx, hy, hz, bind, Except.bind] at h
    split at h
    · cases h
    case h_2 m hm =>
      split at h
      · cases h
      case h_2 b' hfold =>
        cases h
        exact inRange_of_foldlM hfold (inRange_placed hm)

theorem inRange_of_readLine {line : Bytes} {p : Position} {b : Block}
    (h : readLine line = .ok (some (p, b))) : b.InRange := by
  unfold readLine at h
  split at h
  · cases h
  · cases hfields : readFields (content line).fields with
    | error e => simp [hfields, Except.map] at h
    | ok placed =>
        simp only [hfields, Except.map, Except.ok.injEq, Option.some.injEq] at h
        rw [h] at hfields
        exact inRange_of_readFields hfields

/-! ## Reading a world -/

/-- What holds of all blocks and of the one that is placed holds of all blocks afterwards.  Air is
cleared, so that it is never kept as a block. -/
theorem forall_blocks_set {P : Block → Prop} {w : World}
    (h : ∀ (q : Position) (c : Block), w.blocks[q]? = some c → P c) (p : Position) {b : Block}
    (hb : b.material ≠ .air → P b) (q : Position) (c : Block)
    (hc : (w.set p b).blocks[q]? = some c) : P c := by
  rw [getElem?_set] at hc
  split at hc
  · split at hc
    · cases hc
    case isFalse hair =>
      cases hc
      exact hb hair
  · exact h q c hc

theorem InRange.set {w : World} (h : w.InRange) {b : Block} (hb : b.InRange) (p : Position) :
    (w.set p b).InRange :=
  forall_blocks_set h p fun hair => ⟨hb, hair⟩

theorem inRange_of_readLines {n : Nat} {w w' : World} {lines : List Bytes}
    (h : readLines n w lines = .ok w') (hw : w.InRange) : w'.InRange := by
  induction lines generalizing n w with
  | nil =>
      cases h
      exact hw
  | cons line rest ih =>
      rw [readLines] at h
      split at h
      · cases h
      case h_2 placement hline =>
        refine ih h ?_
        match placement with
        | none => exact hw
        | some (p, b) => exact hw.set (inRange_of_readLine hline) p

/-- The blocks of a world that has been read are in range. -/
theorem inRange_of_read {data : Bytes} {w : World} (h : read data = .ok w) : w.InRange := by
  refine inRange_of_readLines h fun p b hb => ?_
  simp [empty] at hb

theorem InRange.powered {w : World} (h : w.InRange) : w.Powered := by
  intro p
  cases hp : w.blocks[p]? with
  | none =>
      rw [get, hp]
      decide
  | some b =>
      rw [get, hp]
      exact (h p b hp).1.power_le

theorem powered_of_read {data : Bytes} {w : World} (h : read data = .ok w) : w.Powered :=
  (inRange_of_read h).powered

/-! ## Ids of the blocks of a world -/

/-- **Ids are a lossless code.**  A block in range is found again in its id.  The words that are
unpacked are those that have no bits above the fields and a known material and facing, and each is the
id of its block, which is in range.  The blocks of a world that has been read are in range and none is
air, so all of them are found again in their ids. -/
theorem ids_are_lossless :
    (∀ b : Block, b.InRange → Block.ofId b.id = .ok b) ∧
      (∀ id : UInt32,
        ((∃ b, Block.ofId id = .ok b) ↔
          id.toNat < 2 ^ 28 ∧ id.toNat % 2 ^ 5 ≤ Material.container.code.toNat ∧
            id.toNat / 2 ^ 5 % 2 ^ 3 ≤ Direction.east.code.toNat) ∧
        ∀ b, Block.ofId id = .ok b → b.InRange ∧ b.id = id) ∧
      ∀ (data : Bytes) (w : World), read data = .ok w →
        ∀ (p : Position) (b : Block), w.blocks[p]? = some b →
          b.InRange ∧ b.material ≠ .air ∧ Block.ofId b.id = .ok b := by
  refine ⟨fun b hb => Block.ofId_id hb, fun id => ⟨⟨?_, ?_⟩, ?_⟩, ?_⟩
  · rintro ⟨b, hb⟩
    obtain ⟨hreadable, -⟩ := Block.ofId_eq_ok_iff.mp hb
    exact ⟨hreadable.lt, hreadable.material_le, hreadable.facing_le⟩
  · rintro ⟨hlt, hmaterial, hfacing⟩
    exact ⟨_, Block.ofId_eq_ok_iff.mpr ⟨⟨hlt, hmaterial, hfacing⟩, rfl⟩⟩
  · intro b hb
    obtain ⟨hreadable, rfl⟩ := Block.ofId_eq_ok_iff.mp hb
    exact ⟨hreadable.inRange, Block.id_unpacked hreadable.lt⟩
  · intro data w hread p b hp
    obtain ⟨hrange, hair⟩ := inRange_of_read hread p b hp
    exact ⟨hrange, hair, Block.ofId_id hrange⟩

/-- A slow repeater to the west that is locked. -/
def slowRepeater : Block :=
  { material := .repeater, facing := .west, delay := 4, locked := true }

/-- The repeater is read from its line and found again in its id. -/
theorem ids_are_lossless_slowRepeater :
    read (Bytes.ofString "0 0 0 repeater facing=west delay=4 locked=true") =
        .ok (empty.set ⟨0, 0, 0⟩ slowRepeater) ∧
      Block.ofId slowRepeater.id = .ok slowRepeater := by
  have hread : read (Bytes.ofString "0 0 0 repeater facing=west delay=4 locked=true") =
      .ok (empty.set ⟨0, 0, 0⟩ slowRepeater) := rfl
  have hplaced : (empty.set ⟨0, 0, 0⟩ slowRepeater).blocks[(⟨0, 0, 0⟩ : Position)]? =
      some slowRepeater := by decide +kernel
  exact ⟨hread, (ids_are_lossless.2.2 _ _ hread _ _ hplaced).2.2⟩

end World

/-! ## The extent of a world -/

namespace World

variable {w : World} {r : Region}

theorem contains_of_extent (h : w.extent = some r) {p : Position} {b : Block}
    (hp : w.blocks[p]? = some b) : r.contains p = true := by
  refine Region.contains_of_hull h ?_
  rw [Std.ExtTreeMap.mem_keys, Std.ExtTreeMap.mem_iff_isSome_getElem?, hp]
  rfl

/-- An extent is valid. -/
theorem isValid_of_extent (h : w.extent = some r) : r.isValid = true := by
  cases hkeys : w.blocks.keys with
  | nil =>
      rw [extent, hkeys] at h
      cases h
  | cons p rest =>
      have hmem : p ∈ w.blocks.keys := hkeys ▸ List.mem_cons_self
      exact Region.isValid_of_contains (Region.contains_of_hull h hmem)

/-- A world with blocks has a valid extent. -/
theorem exists_extent (h : 0 < w.size) : ∃ r, w.extent = some r ∧ r.isValid = true := by
  have hkeys : w.blocks.keys ≠ [] := by
    intro hnil
    have hlength : w.blocks.keys.length = w.size := Std.ExtTreeMap.length_keys
    rw [hnil] at hlength
    exact absurd hlength (Nat.ne_of_lt h)
  obtain ⟨p, rest, hcons⟩ := List.exists_cons_of_ne_nil hkeys
  have hextent : w.extent = some (rest.foldl Region.extend (.single p)) := by
    rw [extent, hcons]
    rfl
  exact ⟨_, hextent, isValid_of_extent hextent⟩

end World

end Redstone
