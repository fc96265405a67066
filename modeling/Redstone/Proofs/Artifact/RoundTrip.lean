import Mathlib.Algebra.Group.Nat.Defs
import Redstone.Artifact.Decode
import Redstone.Artifact.Encode

/-!
# Reading undoes writing

Every value that is written is read back, whatever bytes follow it, and reading goes on behind
it.  This is shown for words, blocks, inputs, nodes and at last for whole artifacts.  The other
way round, whatever is read has passed all checks, so that it is a valid netlist.

The digest is any function to 32 bytes.
-/

namespace Redstone

/-! ## Digests -/

namespace Blake2b

theorem size_compress (h : Array UInt64) (block : Bytes) (count : Nat) (last : Bool) :
    (compress h block count last).size = h.size := by
  simp [compress]

theorem size_absorb (h : Array UInt64) (count : Nat) (message : Bytes) :
    (absorb h count message).size = h.size := by
  fun_induction absorb h count message with
  | case1 h count message hrest => exact size_compress ..
  | case2 h count message next rest hrest hshorter ih => rw [ih, size_compress]

theorem length_digest (message : Bytes) : (digest message).length = digestLength := by
  have hsize : (absorb initial 0 message).toList.length = 8 := by
    rw [Array.length_toList, size_absorb]
    rfl
  have hwords (words : List UInt64) : (words.flatMap wordBytes).length = 8 * words.length := by
    induction words with
    | nil => rfl
    | cons w rest ih =>
        rw [List.flatMap_cons, List.length_append, ih, List.length_cons]
        simp only [wordBytes, List.length_map, List.length_range]
        omega
  rw [digest, List.length_take, hwords, hsize]
  decide

end Blake2b

/-! ## Valid netlists -/

/-- The node is in range for a netlist with `count` nodes. -/
structure NetNode.Valid (count : Nat) (n : NetNode) : Prop where
  type_le : n.gate.type.code ≤ GateType.noteBlock.code
  mode : n.gate.mode = .compare ∨ n.gate.mode = .subtract
  strength_le : n.state.strength ≤ maxStrength
  channel : ∀ i ∈ n.inputs, i.channel = .main ∨ i.channel = .side
  loss_le : ∀ i ∈ n.inputs, i.loss ≤ maxStrength
  source_lt : ∀ i ∈ n.inputs, i.source.toNat < count
  output_lt : ∀ o ∈ n.outputs, o.toNat < count
  blocks_lt : n.blocks.length < UInt32.size
  inputs_lt : n.inputs.length < UInt32.size
  outputs_lt : n.outputs.length < UInt32.size

/-- The netlist is not too large, its nodes are in range, and its forward links are those that
its inputs give. -/
structure Netlist.Valid (n : Netlist) : Prop where
  size_le : n.size ≤ ForwardLink.maxNodes
  nodes : ∀ node ∈ n.nodes, node.Valid n.size
  linked : n.relink = n

namespace Netlist

/-- The node without its forward links. -/
def bareNode (node : NetNode) : NetNode :=
  { node with links := [] }

/-- The netlist without its forward links. -/
def bare (n : Netlist) : Netlist where
  nodes := n.nodes.map bareNode

theorem wires_bare (n : Netlist) : n.bare.wires = n.wires := by
  unfold wires bare
  rw [Array.toList_map, List.zipIdx_map, List.flatMap_map]
  rfl

theorem forwardLinks_bare (n : Netlist) : n.bare.forwardLinks = n.forwardLinks := by
  have hsize : n.bare.size = n.size := Array.size_map
  unfold forwardLinks
  rw [wires_bare, hsize]

/-- The forward links that were there before make no difference. -/
theorem relink_bare (n : Netlist) : n.bare.relink = n.relink := by
  unfold relink
  dsimp only
  rw [forwardLinks_bare]
  congr 1
  apply Array.ext
  · simp [bare]
  · intro i hi hi'
    simp [bare, bareNode]

theorem bare_relink (n : Netlist) : n.relink.bare = n.bare := by
  unfold relink bare
  dsimp only
  congr 1
  apply Array.ext
  · simp
  · intro i hi hi'
    simp [bareNode]

/-- Forward links are computed anew from the inputs, so that computing them twice changes nothing.
-/
theorem relink_relink (n : Netlist) : n.relink.relink = n.relink := by
  rw [← relink_bare, bare_relink, relink_bare]

end Netlist

namespace Artifact

/-! ## Numbers and flags -/

theorem toNat_word (a b c d : UInt8) :
    (word a b c d).toNat = a.toNat * 2 ^ 24 + b.toNat * 2 ^ 16 + c.toNat * 2 ^ 8 + d.toNat := by
  have ha := a.toNat_lt
  have hb := b.toNat_lt
  have hc := c.toNat_lt
  have hd := d.toNat_lt
  have hshift (x : UInt8) (k : UInt32) (hk : k.toNat ≤ 24) :
      (x.toUInt32 <<< k).toNat = x.toNat <<< k.toNat := by
    have hx := x.toNat_lt
    have hpow : 2 ^ k.toNat ≤ 2 ^ 24 := Nat.pow_le_pow_right (by omega) hk
    have hlt : x.toNat * 2 ^ k.toNat < 2 ^ 32 := by
      calc x.toNat * 2 ^ k.toNat ≤ x.toNat * 2 ^ 24 := Nat.mul_le_mul_left _ hpow
        _ < 2 ^ 32 := by omega
    have hmod : k.toNat % 32 = k.toNat := Nat.mod_eq_of_lt (by omega)
    rw [UInt32.toNat_shiftLeft, UInt8.toNat_toUInt32, hmod, Nat.shiftLeft_eq, Nat.mod_eq_of_lt hlt]
  -- the bytes do not overlap, so that `or` adds them
  have hlow : (c.toNat <<< 8 ||| d.toNat) = c.toNat * 2 ^ 8 + d.toNat := by
    rw [← Nat.shiftLeft_add_eq_or_of_lt (by omega), Nat.shiftLeft_eq]
  have hmiddle : (b.toNat <<< 16 ||| (c.toNat * 2 ^ 8 + d.toNat)) =
      b.toNat * 2 ^ 16 + (c.toNat * 2 ^ 8 + d.toNat) := by
    rw [← Nat.shiftLeft_add_eq_or_of_lt (by omega), Nat.shiftLeft_eq]
  have hhigh : (a.toNat <<< 24 ||| (b.toNat * 2 ^ 16 + (c.toNat * 2 ^ 8 + d.toNat))) =
      a.toNat * 2 ^ 24 + (b.toNat * 2 ^ 16 + (c.toNat * 2 ^ 8 + d.toNat)) := by
    rw [← Nat.shiftLeft_add_eq_or_of_lt (by omega), Nat.shiftLeft_eq]
  unfold word
  rw [UInt32.toNat_or, UInt32.toNat_or, UInt32.toNat_or, UInt8.toNat_toUInt32,
    hshift a 24 (by decide), hshift b 16 (by decide), hshift c 8 (by decide)]
  change a.toNat <<< 24 ||| b.toNat <<< 16 ||| c.toNat <<< 8 ||| d.toNat = _
  rw [Nat.or_assoc, Nat.or_assoc, hlow, hmiddle, hhigh]
  omega

/-- A word is put together again from its bytes. -/
theorem word_wordBytes (w : UInt32) :
    word (w >>> 24).toUInt8 (w >>> 16).toUInt8 (w >>> 8).toUInt8 w.toUInt8 = w := by
  apply UInt32.toNat_inj.mp
  rw [toNat_word]
  have hw := w.toNat_lt
  simp only [UInt32.toNat_toUInt8, UInt32.toNat_shiftRight, Nat.shiftRight_eq_div_pow]
  change w.toNat / 2 ^ 24 % 2 ^ 8 * _ + w.toNat / 2 ^ 16 % 2 ^ 8 * _ +
    w.toNat / 2 ^ 8 % 2 ^ 8 * _ + _ = _
  omega

theorem Flags.ofByte_toByte : ∀ f : Flags, ofByte f.toByte = f := by
  have hall : ∀ a b c d e f g, ofByte (toByte ⟨a, b, c, d, e, f, g⟩) = ⟨a, b, c, d, e, f, g⟩ := by
    decide
  rintro ⟨a, b, c, d, e, f, g⟩
  exact hall a b c d e f g

/-! ## Decoders that undo an encoding -/

/-- The decoder reads back the value that has been written and stops behind it. -/
def Undoes {α : Type} (decoder : Decoder α) (bytes : Bytes) (x : α) : Prop :=
  ∀ rest, decoder (bytes ++ rest) = .ok (x, rest)

theorem undoes_word (w : UInt32) : Undoes decodeWord (wordBytes w) w := by
  intro rest
  change Except.ok (word _ _ _ _, rest) = _
  rw [word_wordBytes]

/-- Values are read back one after the other, as many as have been written. -/
theorem undoes_many {α : Type} {decoder : Decoder α} {item : α → Bytes} {xs : List α}
    (h : ∀ x ∈ xs, Undoes decoder (item x) x) :
    Undoes (decodeMany decoder xs.length) (xs.flatMap item) xs := by
  induction xs with
  | nil =>
      intro rest
      rfl
  | cons x xs ih =>
      intro rest
      rw [List.flatMap_cons, List.append_assoc, List.length_cons, decodeMany,
        h x List.mem_cons_self]
      dsimp only
      rw [ih (fun y hy => h y (List.mem_cons_of_mem _ hy))]

theorem toNat_ofNat_length {α : Type} {xs : List α} (h : xs.length < UInt32.size) :
    (UInt32.ofNat xs.length).toNat = xs.length :=
  UInt32.toNat_ofNat_of_lt h

theorem undoes_list {α : Type} {decoder : Decoder α} {item : α → Bytes} {xs : List α}
    (hlength : xs.length < UInt32.size) (h : ∀ x ∈ xs, Undoes decoder (item x) x) :
    Undoes (decodeList decoder) (encodeList item xs) xs := by
  intro rest
  unfold decodeList encodeList
  rw [List.append_assoc, undoes_word]
  dsimp only
  rw [toNat_ofNat_length hlength]
  exact undoes_many h rest

theorem undoes_block (b : BlockRef) : Undoes decodeBlock (encodeBlock b) b := by
  intro rest
  change Except.ok (BlockRef.mk (Position.mk (coordinate _ _ _ _) (coordinate _ _ _ _)
    (coordinate _ _ _ _)) (word _ _ _ _), rest) = _
  unfold coordinate
  simp only [word_wordBytes, Int32.toInt32_toUInt32]

theorem undoes_input {count : UInt32} {i : NetInput} (hchannel : i.channel = .main ∨ i.channel = .side)
    (hloss : i.loss ≤ maxStrength) (hsource : i.source.toNat < count.toNat) :
    Undoes (decodeInput count) (encodeInput i) i := by
  intro rest
  have hcode : ¬ Channel.side.code < i.channel.code := by
    rcases hchannel with h | h <;> rw [h] <;> decide
  have hloss' : ¬ maxStrength < i.loss := by grind
  have hsource' : ¬ count ≤ i.source := by
    rw [UInt32.le_iff_toNat_le]
    omega
  unfold encodeInput wordBytes
  simp only [List.cons_append, List.nil_append, decodeInput, word_wordBytes]
  simp [hcode, hloss', hsource', Channel.ofCode_code]

theorem undoes_output {count o : UInt32} (h : o.toNat < count.toNat) :
    Undoes (decodeOutput count) (wordBytes o) o := by
  intro rest
  have hlt : ¬ count ≤ o := by
    rw [UInt32.le_iff_toNat_le]
    omega
  unfold decodeOutput
  rw [undoes_word]
  simp [hlt]

/-! ## Nodes -/

/-- The fixed part of the record of a node. -/
def headOf (n : NetNode) : NodeHead where
  type := n.gate.type.code
  flags := (Flags.ofNode n).toByte
  delay := n.gate.delay
  farInput := n.gate.farInput
  instrument := n.gate.instrument
  note := n.gate.note
  strength := n.state.strength
  blockCount := UInt32.ofNat n.blocks.length

theorem decodeHead_headOf {n : NetNode} (htype : n.gate.type.code ≤ GateType.noteBlock.code)
    (hstrength : n.state.strength ≤ maxStrength) (rest : Bytes) :
    decodeHead ([ n.gate.type.code, (Flags.ofNode n).toByte, n.gate.delay, n.gate.farInput
      , n.gate.instrument, n.gate.note, n.state.strength ] ++
        (wordBytes (UInt32.ofNat n.blocks.length) ++ rest)) = .ok (headOf n, rest) := by
  have htype' : ¬ GateType.noteBlock.code < n.gate.type.code := by grind
  have hstrength' : ¬ maxStrength < n.state.strength := by grind
  unfold wordBytes
  simp only [List.cons_append, List.nil_append, decodeHead, word_wordBytes]
  rw [if_neg htype', if_neg hstrength']
  rfl

theorem toNode_headOf {n : NetNode} (hmode : n.gate.mode = .compare ∨ n.gate.mode = .subtract) :
    (headOf n).toNode n.blocks n.inputs n.outputs = Netlist.bareNode n := by
  have hmode' : (if n.gate.mode == .subtract then Mode.subtract else .compare) = n.gate.mode := by
    rcases hmode with h | h <;> rw [h] <;> rfl
  unfold NodeHead.toNode headOf
  dsimp only
  rw [Flags.ofByte_toByte, GateType.ofCode_code]
  unfold Flags.ofNode
  dsimp only
  rw [hmode']
  rfl

/-- A node in range is read back, but for its forward links. -/
theorem undoes_node {count : UInt32} {n : NetNode} (h : n.Valid count.toNat) :
    Undoes (decodeNode count) (encodeNode n) (Netlist.bareNode n) := by
  intro rest
  have hblocks : Undoes (decodeMany decodeBlock n.blocks.length) (n.blocks.flatMap encodeBlock)
      n.blocks := undoes_many fun b _ => undoes_block b
  have hinputs := undoes_list h.inputs_lt fun i hi =>
    undoes_input (h.channel i hi) (h.loss_le i hi) (h.source_lt i hi)
  have houtputs := undoes_list h.outputs_lt fun o ho => undoes_output (h.output_lt o ho)
  unfold decodeNode encodeNode
  rw [encodeList, List.append_assoc, List.append_assoc, List.append_assoc, List.append_assoc,
    decodeHead_headOf h.type_le h.strength_le]
  change (decodeMany decodeBlock (UInt32.ofNat n.blocks.length).toNat _ >>= _) = _
  rw [toNat_ofNat_length h.blocks_lt, hblocks]
  change (decodeList (decodeInput count) _ >>= _) = _
  rw [hinputs]
  change (decodeList (decodeOutput count) _ >>= _) = _
  rw [houtputs]
  change Except.ok ((headOf n).toNode n.blocks n.inputs n.outputs, rest) = _
  rw [toNode_headOf h.mode]

theorem decodeNodes_flatMap (count : UInt32) (nodes : List NetNode)
    (h : ∀ node ∈ nodes, node.Valid count.toNat) (index : Nat) (rest : Bytes) :
    decodeNodes count nodes.length index (nodes.flatMap encodeNode ++ rest) =
      .ok (nodes.map Netlist.bareNode, rest) := by
  induction nodes generalizing index with
  | nil => rfl
  | cons node nodes ih =>
      rw [List.flatMap_cons, List.append_assoc, List.length_cons, decodeNodes,
        undoes_node (h node List.mem_cons_self)]
      dsimp only
      rw [ih (fun next hnext => h next (List.mem_cons_of_mem _ hnext))]
      rfl

/-! ## Artifacts -/

theorem decodeHeader_encodeBody {n : Netlist} (h : n.size ≤ ForwardLink.maxNodes) (rest : Bytes) :
    decodeHeader (encodeBody n ++ rest) =
      .ok (UInt32.ofNat n.size, n.nodes.toList.flatMap encodeNode ++ rest) := by
  have hcount : (UInt32.ofNat n.size).toNat = n.size := by
    refine UInt32.toNat_ofNat_of_lt (Nat.lt_of_le_of_lt h ?_)
    decide
  have hle : ¬ ForwardLink.maxNodes < (UInt32.ofNat n.size).toNat := by
    rw [hcount]
    omega
  unfold encodeBody encodeList
  rw [Array.length_toList]
  change decodeHeader (wordBytes magic ++ wordBytes version ++
    (wordBytes (UInt32.ofNat n.size) ++ n.nodes.toList.flatMap encodeNode) ++ rest) = _
  rw [List.append_assoc, List.append_assoc, List.append_assoc]
  unfold wordBytes
  simp only [List.cons_append, List.nil_append, decodeHeader, word_wordBytes]
  rw [if_neg (by simp), if_neg (by simp), if_neg hle]

/-- The digest of a body agrees with the body, whatever follows. -/
theorem checkDigest_append {digest : Bytes → Bytes}
    (hdigest : ∀ b, (digest b).length = Blake2b.digestLength) (body rest : Bytes) :
    checkDigest digest body (digest body ++ rest) = .ok () := by
  unfold checkDigest
  rw [List.take_append_of_le_length (Nat.le_of_eq (hdigest body).symm),
    List.take_of_length_le (Nat.le_of_eq (hdigest body))]
  dsimp only
  rw [if_neg (Nat.not_lt.mpr (Nat.le_of_eq (hdigest body).symm)), if_pos rfl]

/-- A valid netlist is read back from its artifact, whatever follows. -/
theorem decodeWith_append {digest : Bytes → Bytes}
    (hdigest : ∀ b, (digest b).length = Blake2b.digestLength) {n : Netlist} (h : n.Valid)
    (rest : Bytes) : decodeWith digest (encodeWith digest n ++ rest) = .ok n := by
  have hcount : (UInt32.ofNat n.size).toNat = n.size := by
    refine UInt32.toNat_ofNat_of_lt (Nat.lt_of_le_of_lt h.size_le ?_)
    decide
  have hnodes := decodeNodes_flatMap (UInt32.ofNat n.size) n.nodes.toList
    (fun node hnode => hcount.symm ▸ h.nodes node (Array.mem_toList_iff.mp hnode)) 0
    (digest (encodeBody n) ++ rest)
  rw [Array.length_toList] at hnodes
  -- what the digest is compared with is what it has been taken of
  have hbody : (encodeBody n ++ (digest (encodeBody n) ++ rest)).take
      ((encodeBody n ++ (digest (encodeBody n) ++ rest)).length -
        (digest (encodeBody n) ++ rest).length) = encodeBody n := by
    rw [List.length_append, Nat.add_sub_cancel, List.take_left]
  unfold decodeWith encodeWith
  dsimp only
  rw [List.append_assoc, decodeHeader_encodeBody h.size_le]
  change (decodeNodes _ (UInt32.ofNat n.size).toNat 0 _ >>= _) = _
  rw [hcount]
  change (decodeNodes _ n.nodes.size 0 _ >>= _) = _
  rw [hnodes]
  change (do
    checkDigest digest (List.take _ _) _
    _) = _
  rw [hbody, checkDigest_append hdigest]
  change Except.ok (Netlist.relink { nodes := (n.nodes.toList.map Netlist.bareNode).toArray }) = _
  -- nodes are read back without their forward links, which are made again
  have hbare : ({ nodes := (n.nodes.toList.map Netlist.bareNode).toArray } : Netlist) = n.bare := by
    rw [← Array.toList_map, Array.toArray_toList]
    rfl
  rw [hbare, Netlist.relink_bare, h.linked]

/-! ## What is read is valid -/

/-- A step after another succeeds just if both do. -/
theorem bind_eq_ok_iff {ε α β : Type} {x : Except ε α} {f : α → Except ε β} {r : β} :
    (x >>= f) = .ok r ↔ ∃ a, x = .ok a ∧ f a = .ok r := by
  cases x with
  | error e => exact ⟨nofun, nofun⟩
  | ok a => exact ⟨fun h => ⟨a, rfl, h⟩, fun ⟨_, rfl, h⟩ => h⟩

/-- Every value that the decoder accepts has the property. -/
def Ensures {α : Type} (decoder : Decoder α) (P : α → Prop) : Prop :=
  ∀ {b x rest}, decoder b = .ok (x, rest) → P x

theorem ensures_many {α : Type} {decoder : Decoder α} {P : α → Prop} (h : Ensures decoder P)
    (count : Nat) :
    Ensures (decodeMany decoder count) fun xs => xs.length = count ∧ ∀ x ∈ xs, P x := by
  induction count with
  | zero =>
      intro b xs rest hb
      cases hb
      exact ⟨rfl, nofun⟩
  | succ count ih =>
      intro b xs rest hb
      rw [decodeMany] at hb
      split at hb
      · cases hb
      case h_2 x b' hx =>
        split at hb
        · cases hb
        case h_2 ys b'' hys =>
          cases hb
          obtain ⟨hlength, hall⟩ := ih hys
          refine ⟨by rw [List.length_cons, hlength], fun y hy => ?_⟩
          rcases List.mem_cons.mp hy with rfl | hy
          · exact h hx
          · exact hall y hy

theorem ensures_list {α : Type} {decoder : Decoder α} {P : α → Prop} (h : Ensures decoder P) :
    Ensures (decodeList decoder) fun xs => xs.length < UInt32.size ∧ ∀ x ∈ xs, P x := by
  intro b xs rest hb
  unfold decodeList at hb
  split at hb
  · cases hb
  case h_2 count b' _ =>
    obtain ⟨hlength, hall⟩ := ensures_many h count.toNat hb
    exact ⟨hlength ▸ count.toNat_lt, hall⟩

theorem ensures_input (count : UInt32) :
    Ensures (decodeInput count) fun i =>
      (i.channel = .main ∨ i.channel = .side) ∧ i.loss ≤ maxStrength ∧
        i.source.toNat < count.toNat := by
  intro b i rest hb
  unfold decodeInput at hb
  split at hb
  case h_2 => cases hb
  case h_1 channel loss b₁ b₂ b₃ b₄ b' =>
    dsimp only at hb
    split at hb
    case isTrue => cases hb
    case isFalse hguard =>
      cases hb
      simp only [Bool.or_eq_true, decide_eq_true_eq, not_or] at hguard
      obtain ⟨⟨hchannel, hloss⟩, hsource⟩ := hguard
      refine ⟨?_, by grind, ?_⟩
      · have hcode : channel = 0 ∨ channel = 1 := by
          have hside : Channel.side.code = 1 := rfl
          rw [hside] at hchannel
          grind
        rcases hcode with rfl | rfl
        · exact .inl rfl
        · exact .inr rfl
      · rw [UInt32.le_iff_toNat_le] at hsource
        exact Nat.lt_of_not_le hsource

theorem ensures_output (count : UInt32) :
    Ensures (decodeOutput count) fun o => o.toNat < count.toNat := by
  intro b o rest hb
  unfold decodeOutput at hb
  split at hb
  · cases hb
  · split at hb
    case isTrue => cases hb
    case isFalse hguard =>
      cases hb
      rw [UInt32.le_iff_toNat_le] at hguard
      exact Nat.lt_of_not_le hguard

theorem ensures_head :
    Ensures decodeHead fun h => h.type ≤ GateType.noteBlock.code ∧ h.strength ≤ maxStrength := by
  intro b h rest hb
  unfold decodeHead at hb
  split at hb
  case h_2 => cases hb
  case h_1 =>
    split at hb
    case isTrue => cases hb
    case isFalse htype =>
      split at hb
      case isTrue => cases hb
      case isFalse hstrength =>
        cases hb
        exact ⟨by grind, by grind⟩

/-- The parts of a node, as they are taken one after the other. -/
theorem exists_of_decodeNode {count : UInt32} {b rest : Bytes} {n : NetNode}
    (hb : decodeNode count b = .ok (n, rest)) :
    ∃ head blocks inputs outputs b₁ b₂ b₃, decodeHead b = .ok (head, b₁) ∧
      decodeMany decodeBlock head.blockCount.toNat b₁ = .ok (blocks, b₂) ∧
      decodeList (decodeInput count) b₂ = .ok (inputs, b₃) ∧
      decodeList (decodeOutput count) b₃ = .ok (outputs, rest) ∧
      n = head.toNode blocks inputs outputs := by
  unfold decodeNode at hb
  obtain ⟨⟨head, b₁⟩, hhead, hb⟩ := bind_eq_ok_iff.mp hb
  obtain ⟨⟨blocks, b₂⟩, hblocks, hb⟩ := bind_eq_ok_iff.mp hb
  obtain ⟨⟨inputs, b₃⟩, hinputs, hb⟩ := bind_eq_ok_iff.mp hb
  obtain ⟨⟨outputs, b₄⟩, houtputs, hb⟩ := bind_eq_ok_iff.mp hb
  cases hb
  exact ⟨head, blocks, inputs, outputs, b₁, b₂, b₃, hhead, hblocks, hinputs, houtputs, rfl⟩

/-- The decoder checks all that a node in range has to satisfy. -/
theorem ensures_node (count : UInt32) : Ensures (decodeNode count) (NetNode.Valid count.toNat) := by
  intro b n rest hb
  obtain ⟨head, blocks, inputs, outputs, b₁, b₂, b₃, hhead, hblocks, hinputs, houtputs, rfl⟩ :=
    exists_of_decodeNode hb
  obtain ⟨htype, hstrength⟩ := ensures_head hhead
  have hblocks' := (ensures_many (P := fun _ => True) (fun _ => trivial) _ hblocks).1
  obtain ⟨hinputsLength, hinputs⟩ := ensures_list (ensures_input count) hinputs
  obtain ⟨houtputsLength, houtputs⟩ := ensures_list (ensures_output count) houtputs
  exact {
    type_le := by
      change (GateType.ofCode head.type).code ≤ _
      rw [GateType.code_ofCode]
      exact htype
    mode := by
      change (if (Flags.ofByte head.flags).subtract then Mode.subtract else .compare) = _ ∨
        (if (Flags.ofByte head.flags).subtract then Mode.subtract else .compare) = _
      split
      · exact .inr rfl
      · exact .inl rfl
    strength_le := hstrength
    channel := fun i hi => (hinputs i hi).1
    loss_le := fun i hi => (hinputs i hi).2.1
    source_lt := fun i hi => (hinputs i hi).2.2
    output_lt := houtputs
    blocks_lt := by
      change blocks.length < UInt32.size
      rw [hblocks']
      exact head.blockCount.toNat_lt
    inputs_lt := hinputsLength
    outputs_lt := houtputsLength }

theorem valid_of_decodeNodes {count : UInt32} {n index : Nat} {b rest : Bytes}
    {nodes : List NetNode} (h : decodeNodes count n index b = .ok (nodes, rest)) :
    nodes.length = n ∧ ∀ node ∈ nodes, node.Valid count.toNat := by
  induction n generalizing index b nodes rest with
  | zero =>
      cases h
      exact ⟨rfl, fun _ hnode => absurd hnode List.not_mem_nil⟩
  | succ n ih =>
      rw [decodeNodes] at h
      split at h
      · cases h
      case h_2 node b' hnode =>
        split at h
        · cases h
        case h_2 others b'' hothers =>
          cases h
          obtain ⟨hlength, hall⟩ := ih hothers
          refine ⟨by rw [List.length_cons, hlength], fun next hnext => ?_⟩
          rcases List.mem_cons.mp hnext with rfl | hnext
          · exact ensures_node count hnode
          · exact hall next hnext

theorem count_le_of_decodeHeader {b rest : Bytes} {count : UInt32}
    (h : decodeHeader b = .ok (count, rest)) : count.toNat ≤ ForwardLink.maxNodes := by
  unfold decodeHeader at h
  split at h
  case h_2 => cases h
  case h_1 =>
    split at h
    · cases h
    · split at h
      · cases h
      · split at h
        · cases h
        case isFalse hle =>
          cases h
          exact Nat.le_of_not_lt hle

/-- Forward links do not count for whether a node is in range. -/
theorem valid_relink {nodes : List NetNode} (hsize : nodes.length ≤ ForwardLink.maxNodes)
    (h : ∀ node ∈ nodes, node.Valid nodes.length) :
    (Netlist.relink { nodes := nodes.toArray }).Valid where
  size_le := by simpa [Netlist.relink, Netlist.size] using hsize
  nodes := by
    intro node hnode
    obtain ⟨i, hi, heq⟩ := Array.mem_iff_getElem.mp hnode
    simp only [Netlist.relink, Array.getElem_mapIdx, List.getElem_toArray] at heq
    have hold := h _ (List.getElem_mem (by simpa [Netlist.relink] using hi))
    rw [← heq]
    have hcount : (Netlist.relink { nodes := nodes.toArray }).size = nodes.length := by
      simp [Netlist.relink, Netlist.size]
    rw [hcount]
    exact ⟨hold.type_le, hold.mode, hold.strength_le, hold.channel, hold.loss_le, hold.source_lt,
      hold.output_lt, hold.blocks_lt, hold.inputs_lt, hold.outputs_lt⟩
  linked := Netlist.relink_relink _

/-- No byte string is read as anything but a valid netlist. -/
theorem valid_of_decodeWith {digest : Bytes → Bytes} {b : Bytes} {n : Netlist}
    (h : decodeWith digest b = .ok n) : n.Valid := by
  unfold decodeWith at h
  obtain ⟨⟨count, b₁⟩, hheader, h⟩ := bind_eq_ok_iff.mp h
  obtain ⟨⟨nodes, b₂⟩, hnodes, h⟩ := bind_eq_ok_iff.mp h
  obtain ⟨-, -, h⟩ := bind_eq_ok_iff.mp h
  cases h
  obtain ⟨hlength, hall⟩ := valid_of_decodeNodes hnodes
  refine valid_relink (hlength ▸ count_le_of_decodeHeader hheader) ?_
  rw [hlength]
  exact hall

/-- Reading undoes writing, and reading yields valid netlists only. -/
theorem decode_undoes_encode (digest : Bytes → Bytes)
    (hdigest : ∀ b, (digest b).length = Blake2b.digestLength) :
    (∀ n : Netlist, n.Valid → ∀ rest, decodeWith digest (encodeWith digest n ++ rest) = .ok n) ∧
      ∀ b n, decodeWith digest b = .ok n → n.Valid :=
  ⟨fun _ h rest => decodeWith_append hdigest h rest, fun _ _ h => valid_of_decodeWith h⟩

/-- A switched lever at the side of a subtracting comparator. -/
def leverAtSide : Netlist :=
  Netlist.relink {
    nodes := #[
      { gate := .plain .lever, state := .ofStrength 15, isInput := true, outputs := [1]
        blocks := [{ position := { x := -1, y := 0, z := 5 }, id := 0x1007 }] },
      { gate := .comparator .subtract true
        inputs := [{ channel := .side, loss := 3, source := 0 }] } ] }

theorem valid_leverAtSide : leverAtSide.Valid := by
  refine valid_relink (by decide) fun node hnode => ?_
  simp only [List.mem_cons, List.not_mem_nil, or_false] at hnode
  -- outputs are words, so that deciding about all of them would try out every word
  rcases hnode with rfl | rfl
  · refine ⟨by decide, by decide, by decide, by decide, by decide, by decide, ?_, by decide,
      by decide, by decide⟩
    exact List.forall_mem_singleton.mpr (by decide)
  · exact ⟨by decide, by decide, by decide, by decide, by decide, by decide,
      List.forall_mem_nil _, by decide, by decide, by decide⟩

/-- The format as it is used, with its own digest.  The netlist of the lever and the comparator is read
back, with another byte behind it. -/
theorem decode_undoes_encode_blake2b :
    ((∀ n : Netlist, n.Valid → ∀ rest, decode (encode n ++ rest) = .ok n) ∧
      ∀ b n, decode b = .ok n → n.Valid) ∧
      decode (encode leverAtSide ++ [0xFF]) = .ok leverAtSide := by
  have hboth := decode_undoes_encode Blake2b.digest Blake2b.length_digest
  exact ⟨hboth, hboth.1 leverAtSide valid_leverAtSide [0xFF]⟩

end Artifact

end Redstone
