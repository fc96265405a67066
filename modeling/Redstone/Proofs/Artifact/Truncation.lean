import Redstone.Proofs.Artifact.Canonical

/-!
# Artifacts that are cut off

A decoder takes bytes from the front and does not look at those behind.  On bytes that are cut off it
therefore does what it would do on all of them, until they run out.  What it takes from the front of an
encoding is all of it, since the counts of the lists are read before their items.

So an artifact that is accepted is used up to the end of its digest, and no part of it that ends
earlier is accepted: reading it fails for want of bytes, wherever the cut is.
-/

namespace Redstone.Artifact

variable {α β : Type}

/-! ## Decoders one after the other -/

/-- Takes a value, and then another one as the first one says. -/
def Decoder.andThen (decoder : Decoder α) (next : α → Decoder β) : Decoder β := fun b =>
  decoder b >>= fun p => next p.1 p.2

/-- Takes nothing. -/
def Decoder.give (x : α) : Decoder α := fun b =>
  .ok (x, b)

/-- Takes nothing, but refuses the value if the condition holds. -/
def Decoder.refuseIf (refused : Prop) [Decidable refused] (e : NodeError) (x : α) : Decoder α := fun b =>
  if refused then .error e else .ok (x, b)

theorem decodeMany_succ (item : Decoder α) (count : Nat) :
    decodeMany item (count + 1) =
      item.andThen fun x => (decodeMany item count).andThen fun xs => .give (x :: xs) := by
  funext b
  rw [decodeMany, Decoder.andThen]
  cases item b with
  | error e => rfl
  | ok p =>
      change _ = decodeMany item count p.2 >>= _
      dsimp only
      cases decodeMany item count p.2 <;> rfl

theorem decodeList_eq (item : Decoder α) :
    decodeList item = Decoder.andThen decodeWord fun count => decodeMany item count.toNat := by
  funext b
  rw [decodeList, Decoder.andThen]
  cases decodeWord b <;> rfl

theorem decodeOutput_eq (count : UInt32) :
    decodeOutput count =
      Decoder.andThen decodeWord fun o => .refuseIf (count ≤ o) (.badOutput o) o := by
  funext b
  rw [decodeOutput, Decoder.andThen]
  cases decodeWord b <;> rfl

theorem decodeNode_eq (count : UInt32) :
    decodeNode count = Decoder.andThen decodeHead fun head =>
      (decodeMany decodeBlock head.blockCount.toNat).andThen fun blocks =>
      (decodeList (decodeInput count)).andThen fun inputs =>
      (decodeList (decodeOutput count)).andThen fun outputs =>
      .give (head.toNode blocks inputs outputs) :=
  rfl

/-! ## Bytes that are cut off -/

/-- Where bytes are accepted, a decoder that is given their front only takes the same value from it,
or it runs out of bytes. -/
def Cuttable (decoder : Decoder α) : Prop :=
  ∀ (front cut rest : Bytes) (x : α), decoder (front ++ cut) = .ok (x, rest) →
    (∃ left, decoder front = .ok (x, left) ∧ rest = left ++ cut) ∨
      ∃ s, decoder front = .error (.short s)

theorem cuttable_give (x : α) : Cuttable (.give x) := by
  intro front cut rest y h
  cases h
  exact .inl ⟨front, rfl, rfl⟩

theorem cuttable_refuseIf (refused : Prop) [Decidable refused] (e : NodeError) (x : α) :
    Cuttable (.refuseIf refused e x) := by
  intro front cut rest y h
  unfold Decoder.refuseIf at h ⊢
  split at h
  case isTrue => cases h
  case isFalse hguard =>
    rw [if_neg hguard]
    exact cuttable_give x front cut rest y h

/-- Bytes that are cut off are missed by the first decoder or by the second. -/
theorem Cuttable.andThen {decoder : Decoder α} {next : α → Decoder β} (h : Cuttable decoder)
    (hnext : ∀ x, Cuttable (next x)) : Cuttable (decoder.andThen next) := by
  intro front cut rest y hb
  obtain ⟨⟨x, b⟩, hx, hy⟩ := bind_eq_ok_iff.mp hb
  unfold Decoder.andThen
  rcases h front cut b x hx with ⟨left, hleft, hrest⟩ | ⟨s, hs⟩
  · rw [hleft]
    rw [hrest] at hy
    exact hnext x left cut rest y hy
  · rw [hs]
    exact .inr ⟨s, rfl⟩

theorem cuttable_word : Cuttable decodeWord := by
  intro front cut rest w h
  unfold decodeWord
  split
  · cases h
    exact .inl ⟨_, rfl, rfl⟩
  · exact .inr ⟨_, rfl⟩

theorem cuttable_many {item : Decoder α} (h : Cuttable item) (count : Nat) :
    Cuttable (decodeMany item count) := by
  induction count with
  | zero => exact cuttable_give []
  | succ count ih =>
      rw [decodeMany_succ]
      exact h.andThen fun x => ih.andThen fun xs => cuttable_give (x :: xs)

theorem cuttable_list {item : Decoder α} (h : Cuttable item) : Cuttable (decodeList item) := by
  rw [decodeList_eq]
  exact cuttable_word.andThen fun count => cuttable_many h count.toNat

theorem cuttable_block : Cuttable decodeBlock := by
  intro front cut rest block h
  unfold decodeBlock
  split
  · cases h
    exact .inl ⟨_, rfl, rfl⟩
  · exact .inr ⟨_, rfl⟩

theorem cuttable_input (count : UInt32) : Cuttable (decodeInput count) := by
  intro front cut rest input h
  unfold decodeInput
  split
  · exact cuttable_refuseIf _ _ _ _ cut rest input h
  · exact .inr ⟨_, rfl⟩

theorem cuttable_output (count : UInt32) : Cuttable (decodeOutput count) := by
  rw [decodeOutput_eq]
  exact cuttable_word.andThen fun o => cuttable_refuseIf (count ≤ o) (.badOutput o) o

theorem cuttable_head : Cuttable decodeHead := by
  intro front cut rest head h
  unfold decodeHead
  split
  · simp only [List.cons_append, decodeHead] at h
    split at h
    case isTrue => cases h
    case isFalse htype =>
      rw [if_neg htype]
      exact cuttable_refuseIf _ _ _ _ cut rest head h
  · exact .inr ⟨_, rfl⟩

theorem cuttable_node (count : UInt32) : Cuttable (decodeNode count) := by
  rw [decodeNode_eq]
  refine cuttable_head.andThen fun head => ?_
  refine (cuttable_many cuttable_block _).andThen fun blocks => ?_
  refine (cuttable_list (cuttable_input count)).andThen fun inputs => ?_
  refine (cuttable_list (cuttable_output count)).andThen fun outputs => ?_
  exact cuttable_give (head.toNode blocks inputs outputs)

/-- The error says that there are too few bytes. -/
def DecodeError.isShortage : DecodeError → Bool
  | shortHeader _ => true
  | node _ (.short _) => true
  | shortDigest _ => true
  | _ => false

/-- The front of the nodes is read as the same nodes, or it ends within one of them. -/
theorem decodeNodes_front {count : UInt32} {n index : Nat} {front cut rest : Bytes}
    {nodes : List NetNode} (h : decodeNodes count n index (front ++ cut) = .ok (nodes, rest)) :
    (∃ left, decodeNodes count n index front = .ok (nodes, left) ∧ rest = left ++ cut) ∨
      ∃ e, decodeNodes count n index front = .error e ∧ e.isShortage = true := by
  induction n generalizing index front nodes with
  | zero =>
      cases h
      exact .inl ⟨front, rfl, rfl⟩
  | succ n ih =>
      rw [decodeNodes] at h ⊢
      split at h
      · cases h
      case h_2 node b hnode =>
        split at h
        · cases h
        case h_2 others b' hothers =>
          cases h
          rcases cuttable_node count front cut b node hnode with ⟨left, hleft, hb⟩ | ⟨s, hs⟩
          · rw [hb] at hothers
            rw [hleft]
            dsimp only
            rcases ih hothers with ⟨left', hleft', hrest⟩ | ⟨e, he, hshort⟩
            · rw [hleft']
              exact .inl ⟨left', rfl, hrest⟩
            · rw [he]
              exact .inr ⟨e, rfl, hshort⟩
          · rw [hs]
            exact .inr ⟨_, rfl, rfl⟩

theorem decodeHeader_front {front cut rest : Bytes} {count : UInt32}
    (h : decodeHeader (front ++ cut) = .ok (count, rest)) :
    (∃ left, decodeHeader front = .ok (count, left) ∧ rest = left ++ cut) ∨
      ∃ e, decodeHeader front = .error e ∧ e.isShortage = true := by
  unfold decodeHeader
  split
  · simp only [List.cons_append, decodeHeader] at h
    split at h
    · cases h
    case isFalse hmagic =>
      split at h
      · cases h
      case isFalse hversion =>
        split at h
        · cases h
        case isFalse hcount =>
          cases h
          rw [if_neg hmagic, if_neg hversion, if_neg hcount]
          exact .inl ⟨_, rfl, rfl⟩
  · exact .inr ⟨_, rfl, rfl⟩

/-- An accepted artifact runs short of bytes when it is cut off before the end of its digest. -/
theorem exists_shortage_of_take {digest : Bytes → Bytes} {b : Bytes} {n : Netlist}
    (h : decodeWith digest b = .ok n) {k : Nat} (hk : k < bodyLength b + Blake2b.digestLength) :
    ∃ e, decodeWith digest (b.take k) = .error e ∧ e.isShortage = true := by
  have hfits := (artifactOf_eq h).2.2
  unfold decodeWith at h
  obtain ⟨⟨count, b₁⟩, hheader, h⟩ := bind_eq_ok_iff.mp h
  obtain ⟨⟨nodes, b₂⟩, hnodes, -⟩ := bind_eq_ok_iff.mp h
  have hlength := bodyLength_eq hheader hnodes
  have hcut : (b.drop k).length = b.length - k := List.length_drop
  have hbehind : b₂.length ≤ b.length := by
    have hb₁ := congrArg List.length (eq_of_decodeHeader hheader)
    have hb₂ := congrArg List.length (eq_encodeNodesAs hnodes).1
    rw [List.length_append] at hb₁ hb₂
    omega
  rw [← List.take_append_drop k b] at hheader
  unfold decodeWith
  rcases decodeHeader_front hheader with ⟨left₁, hleft₁, rfl⟩ | ⟨e, he, hshort⟩
  · rw [hleft₁]
    change ∃ e, (decodeNodes count count.toNat 0 left₁ >>= _) = .error e ∧ _
    rcases decodeNodes_front hnodes with ⟨left₂, hleft₂, rfl⟩ | ⟨e, he, hshort⟩
    · rw [hleft₂]
      -- all nodes are there, so the cut is in the digest
      rw [List.length_append] at hlength hbehind
      have hshort : (left₂.take Blake2b.digestLength).length < Blake2b.digestLength := by
        rw [List.length_take]
        omega
      refine ⟨.shortDigest (shortage left₂), ?_, rfl⟩
      change (checkDigest _ _ left₂ >>= _) = _
      unfold checkDigest
      dsimp only
      rw [if_pos hshort]
      rfl
    · rw [he]
      exact ⟨e, rfl, hshort⟩
  · rw [he]
    exact ⟨e, rfl, hshort⟩

/-! ## Encodings are used up -/

/-- A decoder that accepts an encoding, whatever is behind it, takes all of it and no more, and its
value has the property. -/
def Consumes (decoder : Decoder α) (bytes : Bytes) (P : α → Prop) : Prop :=
  ∀ (behind rest : Bytes) (x : α), decoder (bytes ++ behind) = .ok (x, rest) → rest = behind ∧ P x

theorem consumes_give {x : α} {P : α → Prop} (h : P x) : Consumes (.give x) [] P := by
  intro behind rest y hy
  cases hy
  exact ⟨rfl, h⟩

theorem consumes_refuseIf (refused : Prop) [Decidable refused] (e : NodeError) {x : α} {P : α → Prop}
    (h : P x) : Consumes (.refuseIf refused e x) [] P := by
  intro behind rest y hy
  unfold Decoder.refuseIf at hy
  split at hy
  case isTrue => cases hy
  case isFalse => exact consumes_give h behind rest y hy

/-- What the first decoder leaves is what the second one begins with. -/
theorem Consumes.andThen {decoder : Decoder α} {next : α → Decoder β} {bytes bytes' : Bytes}
    {P : α → Prop} {Q : β → Prop} (h : Consumes decoder bytes P)
    (hnext : ∀ x, P x → Consumes (next x) bytes' Q) :
    Consumes (decoder.andThen next) (bytes ++ bytes') Q := by
  intro behind rest y hy
  rw [List.append_assoc] at hy
  obtain ⟨⟨x, b⟩, hx, hy⟩ := bind_eq_ok_iff.mp hy
  obtain ⟨hb, hP⟩ := h (bytes' ++ behind) b x hx
  subst hb
  exact hnext x hP behind rest y hy

theorem Undoes.consumes {decoder : Decoder α} {bytes : Bytes} {x : α} (h : Undoes decoder bytes x) :
    Consumes decoder bytes (· = x) := by
  intro behind rest y hy
  rw [h behind] at hy
  cases hy
  exact ⟨rfl, rfl⟩

theorem consumes_many {decoder : Decoder α} {item : β → Bytes} {xs : List β}
    (h : ∀ x ∈ xs, Consumes decoder (item x) fun _ => True) :
    Consumes (decodeMany decoder xs.length) (xs.flatMap item) fun _ => True := by
  induction xs with
  | nil => exact consumes_give trivial
  | cons x xs ih =>
      obtain ⟨hfirst, hrest⟩ := List.forall_mem_cons.mp h
      rw [List.length_cons, decodeMany_succ, List.flatMap_cons,
        ← List.append_nil (xs.flatMap item)]
      refine hfirst.andThen fun y _ => ?_
      exact (ih hrest).andThen fun ys _ => consumes_give trivial

theorem consumes_list {decoder : Decoder α} {item : β → Bytes} {xs : List β}
    (hlength : xs.length < UInt32.size) (h : ∀ x ∈ xs, Consumes decoder (item x) fun _ => True) :
    Consumes (decodeList decoder) (encodeList item xs) fun _ => True := by
  rw [decodeList_eq, encodeList]
  refine (undoes_word _).consumes.andThen fun count hcount => ?_
  rw [hcount, toNat_ofNat_length hlength]
  exact consumes_many h

theorem consumes_block (b : BlockRef) : Consumes decodeBlock (encodeBlock b) fun _ => True :=
  fun behind rest x h => ⟨((undoes_block b).consumes behind rest x h).1, trivial⟩

theorem consumes_input (count : UInt32) (i : NetInput) :
    Consumes (decodeInput count) (encodeInput i) fun _ => True := by
  intro behind rest x h
  exact consumes_refuseIf (P := fun _ => True) _ _ trivial behind rest x h

theorem consumes_output (count o : UInt32) :
    Consumes (decodeOutput count) (wordBytes o) fun _ => True := by
  rw [decodeOutput_eq, ← List.append_nil (wordBytes o)]
  exact (undoes_word o).consumes.andThen fun w _ => consumes_refuseIf _ _ trivial

/-- The counts of the lists of a node fit into words. -/
structure CountsFit (n : NetNode) : Prop where
  blocks_lt : n.blocks.length < UInt32.size
  inputs_lt : n.inputs.length < UInt32.size
  outputs_lt : n.outputs.length < UInt32.size

theorem consumes_head (n : NetNode) :
    Consumes decodeHead
      ([ n.gate.type.code, (Flags.ofNode n).toByte, n.gate.delay, n.gate.farInput
        , n.gate.instrument, n.gate.note, n.state.strength ] ++
          wordBytes (UInt32.ofNat n.blocks.length))
      fun head => head.blockCount = UInt32.ofNat n.blocks.length := by
  intro behind rest head h
  unfold wordBytes at h
  simp only [List.cons_append, List.nil_append, decodeHead, word_wordBytes] at h
  split at h
  case isTrue => cases h
  case isFalse =>
    exact consumes_refuseIf (P := fun head => head.blockCount = UInt32.ofNat n.blocks.length) _ _ rfl
      behind rest head h

theorem consumes_node (count : UInt32) {n : NetNode} (h : CountsFit n) :
    Consumes (decodeNode count) (encodeNode n) fun _ => True := by
  have hbytes : encodeNode n =
      ([ n.gate.type.code, (Flags.ofNode n).toByte, n.gate.delay, n.gate.farInput
        , n.gate.instrument, n.gate.note, n.state.strength ] ++
          wordBytes (UInt32.ofNat n.blocks.length)) ++
        (n.blocks.flatMap encodeBlock ++
          (encodeList encodeInput n.inputs ++ (encodeList wordBytes n.outputs ++ []))) := by
    rw [encodeNode, encodeList]
    simp only [List.append_assoc, List.append_nil]
  rw [decodeNode_eq, hbytes]
  refine (consumes_head n).andThen fun head hcount => ?_
  rw [hcount, toNat_ofNat_length h.blocks_lt]
  refine (consumes_many fun b _ => consumes_block b).andThen fun blocks _ => ?_
  refine (consumes_list h.inputs_lt fun i _ => consumes_input count i).andThen fun inputs _ => ?_
  refine (consumes_list h.outputs_lt fun o _ => consumes_output count o).andThen fun outputs _ => ?_
  exact consumes_give trivial

/-- The nodes of a netlist are used up, in whatever way they are read. -/
theorem rest_of_decodeNodes {count : UInt32} {nodes read : List NetNode} {index : Nat}
    {behind rest : Bytes} (hcounts : ∀ node ∈ nodes, CountsFit node)
    (h : decodeNodes count nodes.length index (nodes.flatMap encodeNode ++ behind) =
      .ok (read, rest)) : rest = behind := by
  induction nodes generalizing index read with
  | nil =>
      cases h
      rfl
  | cons node nodes ih =>
      obtain ⟨hfirst, hothers⟩ := List.forall_mem_cons.mp hcounts
      rw [List.length_cons, decodeNodes, List.flatMap_cons, List.append_assoc] at h
      split at h
      · cases h
      case h_2 x b hx =>
        obtain ⟨hb, -⟩ := consumes_node count hfirst _ b x hx
        subst hb
        split at h
        · cases h
        case h_2 others b' hread =>
          cases h
          exact ih hothers hread

/-- The header of an artifact gives the number of its nodes. -/
theorem eq_of_decodeHeader_encodeBody {n : Netlist} {count : UInt32} {behind rest : Bytes}
    (h : decodeHeader (encodeBody n ++ behind) = .ok (count, rest)) :
    count = UInt32.ofNat n.size ∧ rest = n.nodes.toList.flatMap encodeNode ++ behind := by
  have hbytes := eq_of_decodeHeader h
  simp only [encodeBody, encodeList, List.append_assoc, List.append_cancel_left_eq] at hbytes
  have hword := undoes_word (UInt32.ofNat n.nodes.toList.length)
    (n.nodes.toList.flatMap encodeNode ++ behind)
  rw [hbytes, undoes_word] at hword
  obtain ⟨hcount, hrest⟩ := Prod.mk.inj (Except.ok.inj hword)
  rw [Array.length_toList] at hcount
  exact ⟨hcount, hrest⟩

/-- All counts of the netlist fit into words. -/
structure AllCountsFit (n : Netlist) : Prop where
  size_lt : n.size < UInt32.size
  nodes : ∀ node ∈ n.nodes, CountsFit node

theorem AllCountsFit.of_valid {n : Netlist} (h : n.Valid) : AllCountsFit n where
  size_lt := Nat.lt_of_le_of_lt h.size_le (by decide)
  nodes := fun node hnode =>
    have hvalid := h.nodes node hnode
    ⟨hvalid.blocks_lt, hvalid.inputs_lt, hvalid.outputs_lt⟩

/-- An artifact that is accepted is used up. -/
theorem length_encodeWith {digest : Bytes → Bytes} {n m : Netlist} (hcounts : AllCountsFit n)
    (h : decodeWith digest (encodeWith digest n) = .ok m) :
    (encodeWith digest n).length =
      bodyLength (encodeWith digest n) + Blake2b.digestLength := by
  unfold decodeWith at h
  obtain ⟨⟨count, b₁⟩, hheader, h⟩ := bind_eq_ok_iff.mp h
  obtain ⟨⟨nodes, b₂⟩, hnodes, h⟩ := bind_eq_ok_iff.mp h
  obtain ⟨⟨⟩, hdigest, -⟩ := bind_eq_ok_iff.mp h
  have hlength := bodyLength_eq hheader hnodes
  obtain ⟨rfl, rfl⟩ := eq_of_decodeHeader_encodeBody hheader
  have hsize : (UInt32.ofNat n.size).toNat = n.nodes.toList.length := by
    rw [Array.length_toList]
    exact UInt32.toNat_ofNat_of_lt hcounts.size_lt
  rw [hsize] at hnodes
  have hrest := rest_of_decodeNodes
    (fun node hnode => hcounts.nodes node (Array.mem_toList_iff.mp hnode)) hnodes
  subst hrest
  -- the digest that is read is as long as the one that has been written
  have hbody : (encodeWith digest n).take ((encodeWith digest n).length -
      (digest (encodeBody n)).length) = encodeBody n := by
    rw [encodeWith, List.length_append, Nat.add_sub_cancel, List.take_left]
  rw [hbody] at hdigest
  obtain ⟨hfound, hlong⟩ := eq_of_checkDigest hdigest
  have hdigestLength := congrArg List.length hfound
  rw [List.length_take] at hdigestLength
  have htotal : (encodeWith digest n).length =
      (encodeBody n).length + (digest (encodeBody n)).length := List.length_append
  omega

/-- The artifact of a netlist that can be read back cannot be read any more when bytes are missing at
its end, wherever it is cut off: reading fails for want of bytes. -/
theorem cut_artifacts_are_rejected (digest : Bytes → Bytes) (n : Netlist) (hcounts : AllCountsFit n)
    (haccepted : ∃ m, decodeWith digest (encodeWith digest n) = .ok m) (k : Nat)
    (hk : k < (encodeWith digest n).length) :
    ∃ e, decodeWith digest ((encodeWith digest n).take k) = .error e ∧ e.isShortage = true := by
  obtain ⟨m, hm⟩ := haccepted
  rw [length_encodeWith hcounts hm] at hk
  exact exists_shortage_of_take hm hk

/-- No part of the artifact of the lever and the comparator is read. -/
theorem cut_artifacts_are_rejected_leverAtSide :
    decode (encode leverAtSide) = .ok leverAtSide ∧
      ∀ k < (encode leverAtSide).length,
        ∃ e, decode ((encode leverAtSide).take k) = .error e ∧ e.isShortage = true := by
  have hread := decodeWith_append Blake2b.length_digest valid_leverAtSide []
  rw [List.append_nil] at hread
  exact ⟨hread, cut_artifacts_are_rejected Blake2b.digest leverAtSide
    (.of_valid valid_leverAtSide) ⟨_, hread⟩⟩

end Redstone.Artifact
