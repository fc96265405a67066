import Redstone.Proofs.Artifact.RoundTrip

/-!
# Writing undoes reading

Reading leaves out no byte that it depends on: what has been taken from the front of the bytes is
what the writing of the value puts there.  This is shown for words, blocks, inputs, lists and nodes.
The only bit that a node does not remember is the highest one of its flags, so a node record is
written again with the byte of flags that it had.

An artifact that is accepted is therefore determined by its netlist and by the unused bits of its
flags, up to the bytes behind the digest, and it is the artifact of its netlist if these bits are
not set.
-/

namespace Redstone.Artifact

/-! ## Numbers and flags -/

theorem wordBytes_word (a b c d : UInt8) : wordBytes (word a b c d) = [a, b, c, d] := by
  have ha := a.toNat_lt
  have hb := b.toNat_lt
  have hc := c.toNat_lt
  have hd := d.toNat_lt
  have hbyte {w : UInt32} {k : UInt32} {x : UInt8} (hk : k.toNat < 32)
      (h : w.toNat / 2 ^ k.toNat % 2 ^ 8 = x.toNat) : (w >>> k).toUInt8 = x := by
    apply UInt8.toNat_inj.mp
    rw [UInt32.toNat_toUInt8, UInt32.toNat_shiftRight, Nat.shiftRight_eq_div_pow,
      Nat.mod_eq_of_lt hk]
    exact h
  have hlow : (word a b c d).toUInt8 = d := by
    apply UInt8.toNat_inj.mp
    rw [UInt32.toNat_toUInt8, toNat_word]
    omega
  unfold wordBytes
  rw [hlow, hbyte (k := 24) (x := a) (by decide), hbyte (k := 16) (x := b) (by decide),
    hbyte (k := 8) (x := c) (by decide)]
  all_goals
    rw [toNat_word]
    simp only [UInt32.reduceToNat]
    omega

/-- The bit of a byte of flags that is not used. -/
def unusedBit : UInt8 := 0x80

/-- A byte of flags is that of its flags and the unused bit. -/
theorem Flags.toByte_ofByte (b : UInt8) : (ofByte b).toByte ||| (b &&& unusedBit) = b := by
  have hall : ∀ k : Fin 256, (ofByte (UInt8.ofNat k)).toByte ||| (UInt8.ofNat k &&& unusedBit) =
      UInt8.ofNat k := by decide +kernel
  have hb := hall ⟨b.toNat, b.toNat_lt⟩
  rwa [UInt8.ofNat_toNat] at hb

theorem Flags.ofByte_comp_toByte : ofByte ∘ toByte = id :=
  funext ofByte_toByte

/-- Flags leave the unused bit alone. -/
theorem Flags.toByte_and_unusedBit : ∀ f : Flags, f.toByte &&& unusedBit = 0 := by
  have hall : ∀ a b c d e f g, toByte ⟨a, b, c, d, e, f, g⟩ &&& unusedBit = 0 := by decide
  rintro ⟨a, b, c, d, e, f, g⟩
  exact hall a b c d e f g

/-! ## Decoders that take what an encoding writes -/

/-- What the decoder takes from the front of the bytes is what is written for its value. -/
def Takes {α : Type} (decoder : Decoder α) (item : α → Bytes) : Prop :=
  ∀ {b x rest}, decoder b = .ok (x, rest) → b = item x ++ rest

theorem takes_word : Takes decodeWord wordBytes := by
  intro b w rest hb
  unfold decodeWord at hb
  split at hb
  case h_2 => cases hb
  case h_1 b₁ b₂ b₃ b₄ _ =>
    cases hb
    rw [wordBytes_word]
    rfl

theorem takes_many {α : Type} {decoder : Decoder α} {item : α → Bytes} (h : Takes decoder item)
    (count : Nat) : Takes (decodeMany decoder count) fun xs => xs.flatMap item := by
  induction count with
  | zero =>
      intro b xs rest hb
      cases hb
      rfl
  | succ count ih =>
      intro b xs rest hb
      rw [decodeMany] at hb
      split at hb
      · cases hb
      case h_2 x b' hx =>
        split at hb
        · cases hb
        case h_2 ys b'' hys =>
          cases hb
          change b = (x :: ys).flatMap item ++ rest
          rw [List.flatMap_cons, List.append_assoc, h hx, ih hys]

theorem takes_list {α : Type} {decoder : Decoder α} {item : α → Bytes} (h : Takes decoder item) :
    Takes (decodeList decoder) (encodeList item) := by
  intro b xs rest hb
  unfold decodeList at hb
  split at hb
  · cases hb
  case h_2 count b' hcount =>
    have hlength := (ensures_many (P := fun _ => True) (fun _ => trivial) count.toNat hb).1
    rw [takes_word hcount, takes_many h count.toNat hb, encodeList, hlength, UInt32.ofNat_toNat,
      List.append_assoc]

theorem takes_block : Takes decodeBlock encodeBlock := by
  intro b block rest hb
  unfold decodeBlock at hb
  split at hb
  case h_2 => cases hb
  case h_1 =>
    cases hb
    unfold encodeBlock encodeCoordinate coordinate
    simp only [UInt32.toUInt32_toInt32, wordBytes_word]
    rfl

theorem takes_input (count : UInt32) : Takes (decodeInput count) encodeInput := by
  intro b i rest hb
  unfold decodeInput at hb
  split at hb
  case h_2 => cases hb
  case h_1 =>
    dsimp only at hb
    split at hb
    case isTrue => cases hb
    case isFalse =>
      cases hb
      unfold encodeInput
      rw [Channel.code_ofCode, wordBytes_word]
      rfl

theorem takes_output (count : UInt32) : Takes (decodeOutput count) wordBytes := by
  intro b o rest hb
  unfold decodeOutput at hb
  split at hb
  · cases hb
  case h_2 target b' htarget =>
    split at hb
    case isTrue => cases hb
    case isFalse =>
      cases hb
      exact takes_word htarget

/-! ## Nodes -/

/-- The bytes of a node when its byte of flags is the given one. -/
def encodeNodeAs (flags : UInt8) (n : NetNode) : Bytes :=
  [ n.gate.type.code, flags, n.gate.delay, n.gate.farInput, n.gate.instrument, n.gate.note
  , n.state.strength ] ++
    encodeList encodeBlock n.blocks ++
    encodeList encodeInput n.inputs ++
    encodeList wordBytes n.outputs

theorem encodeNode_eq (n : NetNode) : encodeNode n = encodeNodeAs (Flags.ofNode n).toByte n :=
  rfl

theorem Flags.ofNode_toNode (h : NodeHead) (blocks : List BlockRef) (inputs : List NetInput)
    (outputs : List UInt32) : Flags.ofNode (h.toNode blocks inputs outputs) = ofByte h.flags := by
  have hsubtract (subtract : Bool) :
      ((if subtract then Mode.subtract else .compare) == .subtract) = subtract := by
    cases subtract <;> rfl
  unfold ofNode NodeHead.toNode
  simp only [hsubtract]

theorem takes_head : Takes decodeHead fun h =>
    [ h.type, h.flags, h.delay, h.farInput, h.instrument, h.note, h.strength ] ++
      wordBytes h.blockCount := by
  intro b h rest hb
  unfold decodeHead at hb
  split at hb
  case h_2 => cases hb
  case h_1 =>
    split at hb
    case isTrue => cases hb
    case isFalse =>
      split at hb
      case isTrue => cases hb
      case isFalse =>
        cases hb
        dsimp only
        rw [wordBytes_word]
        rfl

/-- The record of a node is what is written for it with the flags that it has. -/
theorem eq_encodeNodeAs {count : UInt32} {b rest : Bytes} {n : NetNode}
    (hb : decodeNode count b = .ok (n, rest)) :
    b = encodeNodeAs (b.getD 1 0) n ++ rest ∧ Flags.ofByte (b.getD 1 0) = Flags.ofNode n := by
  obtain ⟨head, blocks, inputs, outputs, b₁, b₂, b₃, hhead, hblocks, hinputs, houtputs, rfl⟩ :=
    exists_of_decodeNode hb
  have hcount : UInt32.ofNat blocks.length = head.blockCount := by
    rw [(ensures_many (P := fun _ => True) (fun _ => trivial) _ hblocks).1, UInt32.ofNat_toNat]
  have hbytes : b = encodeNodeAs head.flags (head.toNode blocks inputs outputs) ++ rest := by
    rw [takes_head hhead, takes_many takes_block _ hblocks, takes_list (takes_input count) hinputs,
      takes_list (takes_output count) houtputs]
    change _ = ([ (GateType.ofCode head.type).code, head.flags, head.delay, head.farInput
      , head.instrument, head.note, head.strength ] ++ (wordBytes (UInt32.ofNat blocks.length) ++
        blocks.flatMap encodeBlock) ++ encodeList encodeInput inputs ++
        encodeList wordBytes outputs) ++ rest
    rw [GateType.code_ofCode, hcount]
    simp only [List.append_assoc]
  -- the only byte that the node does not determine is the second one of its record
  have hflags : b.getD 1 0 = head.flags := by
    rw [hbytes]
    rfl
  rw [hflags]
  exact ⟨hbytes, (Flags.ofNode_toNode ..).symm⟩

/-! ## Records -/

/-- The bytes of flags of the `n` records in front of the bytes: the second byte of each. -/
def recordFlags (count : UInt32) : Nat → Bytes → List UInt8
  | 0, _ => []
  | n + 1, b =>
      match decodeNode count b with
      | .error _ => []
      | .ok (_, rest) => b.getD 1 0 :: recordFlags count n rest

/-- The bytes of nodes when their bytes of flags are the given ones. -/
def encodeNodesAs (flags : List UInt8) (nodes : List NetNode) : Bytes :=
  (List.zipWith encodeNodeAs flags nodes).flatten

theorem eq_encodeNodesAs {count : UInt32} {n index : Nat} {b rest : Bytes} {nodes : List NetNode}
    (h : decodeNodes count n index b = .ok (nodes, rest)) :
    b = encodeNodesAs (recordFlags count n b) nodes ++ rest ∧
      (recordFlags count n b).map Flags.ofByte = nodes.map Flags.ofNode := by
  induction n generalizing index b nodes rest with
  | zero =>
      cases h
      exact ⟨rfl, rfl⟩
  | succ n ih =>
      rw [decodeNodes] at h
      split at h
      · cases h
      case h_2 node b' hnode =>
        split at h
        · cases h
        case h_2 others b'' hothers =>
          cases h
          obtain ⟨hbytes, hflags⟩ := eq_encodeNodeAs hnode
          obtain ⟨hbytes', hflags'⟩ := ih hothers
          have hcons : recordFlags count (n + 1) b = b.getD 1 0 :: recordFlags count n b' := by
            rw [recordFlags, hnode]
          rw [hcons]
          refine ⟨?_, ?_⟩
          · change b = (encodeNodeAs (b.getD 1 0) node ++
              encodeNodesAs (recordFlags count n b') others) ++ rest
            rw [List.append_assoc, ← hbytes', ← hbytes]
          · rw [List.map_cons, List.map_cons, hflags, hflags']

/-! ## Artifacts -/

theorem eq_of_decodeHeader {b rest : Bytes} {count : UInt32}
    (h : decodeHeader b = .ok (count, rest)) :
    b = wordBytes magic ++ wordBytes version ++ wordBytes count ++ rest := by
  unfold decodeHeader at h
  split at h
  case h_2 => cases h
  case h_1 =>
    split at h
    case isTrue => cases h
    case isFalse hmagic =>
      split at h
      case isTrue => cases h
      case isFalse hversion =>
        split at h
        case isTrue => cases h
        case isFalse =>
          cases h
          rw [← Decidable.not_not.mp hmagic, ← Decidable.not_not.mp hversion]
          simp only [wordBytes_word]
          rfl

/-- The bytes of flags in an artifact. -/
def flagBytes (b : Bytes) : List UInt8 :=
  match decodeHeader b with
  | .error _ => []
  | .ok (count, rest) => recordFlags count count.toNat rest

/-- The number of bytes that an artifact has in front of its digest. -/
def bodyLength (b : Bytes) : Nat :=
  match decodeHeader b with
  | .error _ => 0
  | .ok (count, rest) =>
      match decodeNodes count count.toNat 0 rest with
      | .error _ => 0
      | .ok (_, rest) => b.length - rest.length

theorem bodyLength_eq {b b₁ b₂ : Bytes} {count : UInt32} {nodes : List NetNode}
    (hheader : decodeHeader b = .ok (count, b₁))
    (hnodes : decodeNodes count count.toNat 0 b₁ = .ok (nodes, b₂)) :
    bodyLength b = b.length - b₂.length := by
  rw [bodyLength, hheader]
  dsimp only
  rw [hnodes]

/-- The bytes up to the end of the digest. -/
def artifactOf (b : Bytes) : Bytes :=
  b.take (bodyLength b + Blake2b.digestLength)

/-- The header and the nodes of a netlist when their bytes of flags are the given ones. -/
def encodeBodyAs (flags : List UInt8) (n : Netlist) : Bytes :=
  wordBytes magic ++ wordBytes version ++ wordBytes (UInt32.ofNat n.size) ++
    encodeNodesAs flags n.nodes.toList

/-- The flags that the nodes of a netlist have. -/
def flagsOf (n : Netlist) : List Flags :=
  n.nodes.toList.map Flags.ofNode

theorem encodeBody_eq (n : Netlist) :
    encodeBody n = encodeBodyAs ((flagsOf n).map Flags.toByte) n := by
  have hnodes (nodes : List NetNode) : nodes.flatMap encodeNode =
      encodeNodesAs ((nodes.map Flags.ofNode).map Flags.toByte) nodes := by
    induction nodes with
    | nil => rfl
    | cons node rest ih =>
        rw [List.flatMap_cons, ih, encodeNode_eq]
        rfl
  unfold encodeBody encodeList encodeBodyAs
  rw [hnodes, Array.length_toList]
  exact (List.append_assoc _ _ _).symm

theorem encodeBodyAs_bare (flags : List UInt8) (n : Netlist) :
    encodeBodyAs flags n.bare = encodeBodyAs flags n := by
  have hsize : n.bare.size = n.size := Array.size_map
  unfold encodeBodyAs encodeNodesAs
  rw [hsize, Netlist.bare, Array.toList_map, List.zipWith_map_right]
  rfl

theorem flagsOf_bare (n : Netlist) : flagsOf n.bare = flagsOf n := by
  unfold flagsOf Netlist.bare
  rw [Array.toList_map, List.map_map]
  rfl

theorem encodeBodyAs_relink (flags : List UInt8) (n : Netlist) :
    encodeBodyAs flags n.relink = encodeBodyAs flags n := by
  rw [← encodeBodyAs_bare, Netlist.bare_relink, encodeBodyAs_bare]

theorem flagsOf_relink (n : Netlist) : flagsOf n.relink = flagsOf n := by
  rw [← flagsOf_bare, Netlist.bare_relink, flagsOf_bare]

theorem eq_of_checkDigest {digest : Bytes → Bytes} {before rest : Bytes}
    (h : checkDigest digest before rest = .ok ()) :
    rest.take Blake2b.digestLength = digest before ∧ Blake2b.digestLength ≤ rest.length := by
  unfold checkDigest at h
  dsimp only at h
  split at h
  · cases h
  case isFalse hlong =>
    split at h
    case isTrue hfound =>
      rw [Nat.not_lt, List.length_take] at hlong
      exact ⟨hfound, Nat.le_trans hlong (Nat.min_le_right _ _)⟩
    case isFalse => cases h

/-- An artifact is made of the bytes of its netlist, written with the flags that it has, and of
their digest. -/
theorem artifactOf_eq {digest : Bytes → Bytes} {b : Bytes} {n : Netlist}
    (h : decodeWith digest b = .ok n) :
    artifactOf b = encodeBodyAs (flagBytes b) n ++ digest (encodeBodyAs (flagBytes b) n) ∧
      (flagBytes b).map Flags.ofByte = flagsOf n ∧
      bodyLength b + Blake2b.digestLength ≤ b.length := by
  unfold decodeWith at h
  obtain ⟨⟨count, b₁⟩, hheader, h⟩ := bind_eq_ok_iff.mp h
  obtain ⟨⟨nodes, b₂⟩, hnodes, h⟩ := bind_eq_ok_iff.mp h
  obtain ⟨⟨⟩, hdigest, h⟩ := bind_eq_ok_iff.mp h
  cases h
  obtain ⟨hbytes, hflags⟩ := eq_encodeNodesAs hnodes
  have hflagBytes : flagBytes b = recordFlags count count.toNat b₁ := by
    rw [flagBytes, hheader]
  have hlength := bodyLength_eq hheader hnodes
  have hsize : UInt32.ofNat (Netlist.size { nodes := nodes.toArray }) = count := by
    change UInt32.ofNat nodes.toArray.size = count
    rw [List.size_toArray, (valid_of_decodeNodes hnodes).1, UInt32.ofNat_toNat]
  have hbody : b = encodeBodyAs (flagBytes b) { nodes := nodes.toArray } ++ b₂ := by
    rw [encodeBodyAs, hsize, hflagBytes, List.append_assoc, ← hbytes]
    exact eq_of_decodeHeader hheader
  rw [encodeBodyAs_relink, flagsOf_relink]
  -- the body is what the digest has been compared with
  generalize encodeBodyAs (flagBytes b) { nodes := nodes.toArray } = body at hbody ⊢
  have htaken : b.length - b₂.length = body.length := by
    rw [hbody, List.length_append, Nat.add_sub_cancel]
  have hfront : b.take (b.length - b₂.length) = body := by
    rw [htaken, hbody, List.take_left]
  rw [hfront] at hdigest
  obtain ⟨hfound, hlong⟩ := eq_of_checkDigest hdigest
  refine ⟨?_, hflagBytes ▸ hflags, ?_⟩
  · rw [artifactOf, hlength, htaken, hbody, List.take_length_add_append, hfound]
  · rw [hlength, htaken, hbody, List.length_append]
    exact Nat.add_le_add_left hlong _

/-- The byte of flags is known when the flags and the unused bit are. -/
theorem eq_of_flags {fs gs : List UInt8} (h : fs.map Flags.ofByte = gs.map Flags.ofByte)
    (hunused : fs.map (· &&& unusedBit) = gs.map (· &&& unusedBit)) : fs = gs := by
  induction fs generalizing gs with
  | nil => exact (List.map_eq_nil_iff.mp h.symm).symm
  | cons f fs ih =>
      cases gs with
      | nil => cases h
      | cons g gs =>
          obtain ⟨hfirst, hrest⟩ := List.cons.inj h
          obtain ⟨hbit, hbits⟩ := List.cons.inj hunused
          have hbyte : f = g := by
            change f &&& unusedBit = g &&& unusedBit at hbit
            rw [← Flags.toByte_ofByte f, hfirst, hbit, Flags.toByte_ofByte]
          rw [hbyte, ih hrest hbits]

theorem recordFlags_flatMap {count : UInt32} {nodes : List NetNode}
    (h : ∀ node ∈ nodes, node.Valid count.toNat) (rest : Bytes) :
    recordFlags count nodes.length (nodes.flatMap encodeNode ++ rest) =
      (nodes.map Flags.ofNode).map Flags.toByte := by
  induction nodes with
  | nil => rfl
  | cons node nodes ih =>
      rw [List.flatMap_cons, List.append_assoc, List.length_cons, recordFlags,
        undoes_node (h node List.mem_cons_self)]
      dsimp only
      rw [ih fun next hnext => h next (List.mem_cons_of_mem _ hnext)]
      rfl

/-- The artifact of a netlist has the flags of its nodes. -/
theorem flagBytes_encodeBody {n : Netlist} (h : n.Valid) (rest : Bytes) :
    flagBytes (encodeBody n ++ rest) = (flagsOf n).map Flags.toByte := by
  have hcount : (UInt32.ofNat n.size).toNat = n.size := by
    refine UInt32.toNat_ofNat_of_lt (Nat.lt_of_le_of_lt h.size_le ?_)
    decide
  have hvalid : ∀ node ∈ n.nodes.toList, node.Valid (UInt32.ofNat n.size).toNat := by
    intro node hnode
    rw [hcount]
    exact h.nodes node (Array.mem_toList_iff.mp hnode)
  have hnodes := recordFlags_flatMap hvalid rest
  rw [Array.length_toList] at hnodes
  rw [flagBytes, decodeHeader_encodeBody h.size_le]
  dsimp only
  rw [hcount]
  exact hnodes

/-- Exactly the artifacts without an unused bit are what is written for their netlists. -/
theorem encodeWith_eq_artifactOf_iff {digest : Bytes → Bytes} {b : Bytes} {n : Netlist}
    (h : decodeWith digest b = .ok n) :
    encodeWith digest n = artifactOf b ↔ ∀ f ∈ flagBytes b, f &&& unusedBit = 0 := by
  obtain ⟨hartifact, hflags, -⟩ := artifactOf_eq h
  constructor
  · intro hsame f hf
    -- the flags are in front of the digest, so they are those that have been written
    have hbytes : flagBytes b = (flagsOf n).map Flags.toByte := by
      rw [← List.take_append_drop (bodyLength b + Blake2b.digestLength) b]
      change flagBytes (artifactOf b ++ _) = _
      rw [← hsame, encodeWith, List.append_assoc]
      exact flagBytes_encodeBody (valid_of_decodeWith h) _
    rw [hbytes] at hf
    obtain ⟨flags, -, rfl⟩ := List.mem_map.mp hf
    exact flags.toByte_and_unusedBit
  · intro hunused
    have hbytes : flagBytes b = (flagsOf n).map Flags.toByte := by
      refine eq_of_flags ?_ ?_
      · rw [hflags, List.map_map, Flags.ofByte_comp_toByte, List.map_id]
      · rw [List.map_map, List.map_congr_left hunused, ← hflags, List.map_map]
        exact List.map_congr_left fun f _ => (Flags.toByte_and_unusedBit _).symm
    rw [hartifact, hbytes, ← encodeBody_eq]
    rfl

/-- Writing undoes reading.  An accepted artifact has all bytes of its digest, and it is what is
written for its netlist exactly if its unused bits are not set; two accepted artifacts with the same
netlist and the same unused bits are the same, both up to the bytes behind the digest. -/
theorem encode_undoes_decode (digest : Bytes → Bytes) :
    (∀ b n, decodeWith digest b = .ok n →
      bodyLength b + Blake2b.digestLength ≤ b.length ∧
      (encodeWith digest n = artifactOf b ↔ ∀ f ∈ flagBytes b, f &&& unusedBit = 0)) ∧
    ∀ b₁ b₂ n, decodeWith digest b₁ = .ok n → decodeWith digest b₂ = .ok n →
      (flagBytes b₁).map (· &&& unusedBit) = (flagBytes b₂).map (· &&& unusedBit) →
      artifactOf b₁ = artifactOf b₂ := by
  refine ⟨fun b n h => ⟨(artifactOf_eq h).2.2, encodeWith_eq_artifactOf_iff h⟩,
    fun b₁ b₂ n h₁ h₂ hunused => ?_⟩
  obtain ⟨hartifact₁, hflags₁, -⟩ := artifactOf_eq h₁
  obtain ⟨hartifact₂, hflags₂, -⟩ := artifactOf_eq h₂
  rw [hartifact₁, hartifact₂, eq_of_flags (hflags₁.trans hflags₂.symm) hunused]

/-- The artifact of the lever and the comparator is read, and written again without the byte behind
it. -/
theorem encode_undoes_decode_leverAtSide :
    decode (encode leverAtSide ++ [0xFF]) = .ok leverAtSide ∧
      encode leverAtSide = artifactOf (encode leverAtSide ++ [0xFF]) := by
  have hread := decodeWith_append Blake2b.length_digest valid_leverAtSide [0xFF]
  refine ⟨hread, ((encode_undoes_decode Blake2b.digest).1 _ _ hread).2.mpr fun f hf => ?_⟩
  rw [encodeWith, List.append_assoc, flagBytes_encodeBody valid_leverAtSide] at hf
  obtain ⟨flags, -, rfl⟩ := List.mem_map.mp hf
  exact flags.toByte_and_unusedBit

end Redstone.Artifact
