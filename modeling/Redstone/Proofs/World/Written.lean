import Mathlib.Data.List.Nodup
import Mathlib.Data.List.TakeWhile
import Redstone.Proofs.World.Composition

/-!
# Worlds that are written

A block of a known material is written on a line: its coordinates with decimal digits, and the name of
its material.  The line is read back as the block at its position, and a file of such lines as the
world in which the blocks have been placed one after the other.  When the positions are different, the
world lists exactly the blocks that have been written.
-/

namespace Redstone

/-! ## Decimal digits -/

theorem Bytes.ofString_append (s t : String) : ofString (s ++ t) = ofString s ++ ofString t := by
  simp [ofString, String.toByteArray_append]

namespace Integer

/-- The decimal digits of a number. -/
def digits (n : Nat) : Bytes :=
  Bytes.ofString (toString n)

theorem ofString_digitChar {d : Nat} (h : d < 10) :
    Bytes.ofString (String.ofList [d.digitChar]) = [UInt8.ofNat (0x30 + d)] := by
  have hall : ∀ d < 10, Bytes.ofString (String.ofList [Nat.digitChar d]) =
      [UInt8.ofNat (0x30 + d)] := by decide
  exact hall d h

/-- The last digit comes behind the digits of the tenth part. -/
theorem digits_eq (n : Nat) :
    digits n = (if n < 10 then [] else digits (n / 10)) ++ [UInt8.ofNat (0x30 + n % 10)] := by
  change Bytes.ofString (String.ofList (Nat.toDigits 10 n)) =
    (if n < 10 then [] else Bytes.ofString (String.ofList (Nat.toDigits 10 (n / 10)))) ++ _
  rw [Nat.toDigits_eq_if (by decide)]
  split
  case isTrue h =>
    rw [ofString_digitChar h, Nat.mod_eq_of_lt h]
    rfl
  case isFalse =>
    rw [String.ofList_append, Bytes.ofString_append, ofString_digitChar (Nat.mod_lt n (by decide))]

theorem digits_ne_nil (n : Nat) : digits n ≠ [] := by
  rw [digits_eq]
  simp

theorem digit?_ofNat {d : Nat} (h : d < 10) : digit? (UInt8.ofNat (0x30 + d)) = some d := by
  have hall : ∀ d < 10, digit? (UInt8.ofNat (0x30 + d)) = some d := by decide
  exact hall d h

theorem isSome_digit? {n : Nat} {c : UInt8} (hc : c ∈ digits n) : (digit? c).isSome = true := by
  induction n using Nat.strongRecOn with
  | ind n ih =>
      rw [digits_eq, List.mem_append, List.mem_singleton] at hc
      rcases hc with hc | rfl
      · split at hc
        · cases hc
        · exact ih (n / 10) (by omega) hc
      · rw [digit?_ofNat (Nat.mod_lt n (by decide))]
        rfl

/-- Digits are read back as their number. -/
theorem ofDigits?_digits (n : Nat) : ofDigits? (digits n) = some n := by
  have hfold : (digits n).foldlM (fun n c => (digit? c).map (n * 10 + ·)) 0 = some n := by
    induction n using Nat.strongRecOn with
    | ind n ih =>
        have hlast := digit?_ofNat (Nat.mod_lt n (by decide : 0 < 10))
        rw [digits_eq, List.foldlM_append]
        split
        case isTrue h =>
          rw [Nat.mod_eq_of_lt h] at hlast ⊢
          change (digit? _).map (0 * 10 + ·) >>= some = _
          rw [hlast]
          simp
        case isFalse h =>
          rw [ih (n / 10) (by omega)]
          change (digit? _).map (n / 10 * 10 + ·) >>= some = _
          rw [hlast]
          simp [Nat.div_add_mod']
  rw [ofDigits?, if_neg (by simp [digits_ne_nil]), hfold]

/-- The decimal writing of an integer: its digits, behind a minus sign if it is negative. -/
def text : Int → Bytes
  | .ofNat n => digits n
  | .negSucc n => 0x2D :: digits (n + 1)

/-- Integers are read back from their writing. -/
theorem ofDecimal?_text (v : Int) : ofDecimal? (text v) = some v := by
  cases v with
  | negSucc n =>
      change (ofDigits? (digits (n + 1))).map (fun n => -Int.ofNat n) = _
      rw [ofDigits?_digits]
      rfl
  | ofNat n =>
      obtain ⟨c, rest, hdigits⟩ := List.exists_cons_of_ne_nil (digits_ne_nil n)
      have hdigit : (digit? c).isSome = true := isSome_digit? (hdigits ▸ List.mem_cons_self)
      have hvalue := ofDigits?_digits n
      rw [hdigits] at hvalue
      rw [text, hdigits]
      -- the first digit is no sign
      unfold ofDecimal?
      split
      case h_1 heq =>
        cases heq
        cases hdigit
      case h_2 heq =>
        cases heq
        cases hdigit
      case h_3 =>
        rw [hvalue]
        rfl

end Integer

/-! ## Words -/

namespace Bytes

/-- A visible character of ASCII, but for the number sign. -/
def isVisible (c : UInt8) : Bool :=
  0x20 < c && c < 0x7F && c != World.numberSign

/-- A word has visible characters only, and at least one. -/
structure Word (b : Bytes) : Prop where
  ne_nil : b ≠ []
  visible : ∀ c ∈ b, isVisible c = true

/-- Words with a space between two. -/
def spaced (words : List Bytes) : Bytes :=
  [0x20].intercalate words

theorem not_isBlank_of_isVisible {c : UInt8} (h : isVisible c = true) : isBlank c = false := by
  simp only [isVisible, isBlank, Bool.and_eq_true, decide_eq_true_eq] at h ⊢
  grind

theorem spaced_cons (word next : Bytes) (words : List Bytes) :
    spaced (word :: next :: words) = word ++ 0x20 :: spaced (next :: words) := by
  simp [spaced, List.intercalate]

theorem spaced_singleton (word : Bytes) : spaced [word] = word := by
  simp [spaced, List.intercalate]

theorem mem_spaced {words : List Bytes} (h : ∀ word ∈ words, Word word) {c : UInt8}
    (hc : c ∈ spaced words) : isVisible c = true ∨ c = 0x20 := by
  induction words with
  | nil => simp [spaced, List.intercalate] at hc
  | cons word words ih =>
      have hword := h word List.mem_cons_self
      cases words with
      | nil =>
          rw [spaced_singleton] at hc
          exact .inl (hword.visible c hc)
      | cons next words =>
          rw [spaced_cons, List.mem_append, List.mem_cons] at hc
          rcases hc with hc | rfl | hc
          · exact .inl (hword.visible c hc)
          · exact .inr rfl
          · exact ih (fun w hw => h w (List.mem_cons_of_mem _ hw)) hc

/-- Spaced words begin and end with a visible character. -/
theorem ends_spaced {words : List Bytes} (hne : words ≠ []) (h : ∀ word ∈ words, Word word) :
    ∃ first rest start last, spaced words = first :: rest ∧ spaced words = start ++ [last] ∧
      isVisible first = true ∧ isVisible last = true := by
  induction words with
  | nil => exact absurd rfl hne
  | cons word words ih =>
      have hword := h word List.mem_cons_self
      obtain ⟨first, rest, hfirst⟩ := List.exists_cons_of_ne_nil hword.ne_nil
      have hvisible : isVisible first = true := hword.visible first (hfirst ▸ List.mem_cons_self)
      cases words with
      | nil =>
          rw [spaced_singleton]
          refine ⟨first, rest, word.dropLast, word.getLast hword.ne_nil, hfirst,
            (List.dropLast_concat_getLast hword.ne_nil).symm, hvisible, ?_⟩
          exact hword.visible _ (List.getLast_mem hword.ne_nil)
      | cons next words =>
          obtain ⟨-, -, start, last, -, hlast, -, hvisible'⟩ :=
            ih (List.cons_ne_nil _ _) fun w hw => h w (List.mem_cons_of_mem _ hw)
          rw [spaced_cons, hlast, hfirst]
          exact ⟨first, rest ++ 0x20 :: (start ++ [last]), first :: rest ++ 0x20 :: start, last,
            rfl, by simp, hvisible, hvisible'⟩

/-- Nothing is dropped in front of a visible character. -/
theorem dropChars_of_isVisible {p₂ : UInt8 → UInt8 → Bool} {p₃ : UInt8 → UInt8 → UInt8 → Bool}
    {a : UInt8} (h : isVisible a = true) (h₂ : ∀ b, p₂ a b = false) (h₃ : ∀ b c, p₃ a b c = false)
    (rest : Bytes) : dropChars p₂ p₃ (a :: rest) = a :: rest := by
  unfold dropChars
  rw [not_isBlank_of_isVisible h, if_neg Bool.false_ne_true]
  match rest with
  | [] => rfl
  | [b] => simp [h₂]
  | b :: c :: rest => simp [h₂, h₃]

theorem trim_of_isVisible {b start rest : Bytes} {first last : UInt8} (hfirst : b = first :: rest)
    (hlast : b = start ++ [last]) (h : isVisible first = true) (h' : isVisible last = true) :
    trim b = b := by
  have hlt {c : UInt8} (hc : isVisible c = true) : c < 0x7F := by
    simp only [isVisible, Bool.and_eq_true, decide_eq_true_eq] at hc
    exact hc.1.2
  have hstart : trimStart b = b := by
    rw [hfirst, trimStart]
    have hfirst := hlt h
    exact dropChars_of_isVisible h (by grind [isBlank₂]) (by grind [isBlank₃]) rest
  have hend : trimEnd b = b := by
    rw [hlast, trimEnd, List.reverse_append, List.reverse_singleton, List.singleton_append,
      dropChars_of_isVisible h' _ _ start.reverse]
    · simp
    all_goals have hlast := hlt h'
    · grind [isBlank₂]
    · grind [isBlank₃]
  rw [trim, hstart, hend]

theorem split_of_forall_not {sep : UInt8 → Bool} {b : Bytes} (h : ∀ c ∈ b, sep c = false) :
    split sep b = [b] := by
  induction b with
  | nil => rfl
  | cons c b ih =>
      have hc : ¬ sep c = true := Bool.eq_false_iff.mp (h c List.mem_cons_self)
      exact split_cons_of_not_sep hc (ih fun d hd => h d (List.mem_cons_of_mem _ hd))

/-- The fields of spaced words are the words. -/
theorem fields_spaced {words : List Bytes} (h : ∀ word ∈ words, Word word) :
    fields (spaced words) = words := by
  have hsplit {word : Bytes} (hword : Word word) : split isBlank word = [word] :=
    split_of_forall_not fun c hc => not_isBlank_of_isVisible (hword.visible c hc)
  unfold fields
  induction words with
  | nil => rfl
  | cons word words ih =>
      have hword := h word List.mem_cons_self
      cases words with
      | nil => simp [spaced_singleton, hsplit hword, hword.ne_nil]
      | cons next words =>
          have hrest := ih fun w hw => h w (List.mem_cons_of_mem _ hw)
          rw [spaced_cons, split_append_cons _ _ _ _ (by decide), hsplit hword, List.filter_append,
            hrest]
          simp [hword.ne_nil]

/-- Lines that are ended by a newline each are found again, and an empty one behind them. -/
theorem lines_flatMap {written : List Bytes} (h : ∀ line ∈ written, newline ∉ line) :
    lines (written.flatMap (· ++ [newline])) = written ++ [[]] := by
  induction written with
  | nil => rfl
  | cons line written ih =>
      have hline : lines line = [line] := split_of_forall_not fun c hc => by
        have hne : c ≠ newline := fun heq => h line List.mem_cons_self (heq ▸ hc)
        simp [hne]
      rw [List.flatMap_cons, List.append_assoc, List.singleton_append, lines_append_newline, hline,
        ih fun l hl => h l (List.mem_cons_of_mem _ hl)]
      rfl

end Bytes

namespace World

open Bytes

/-! ## Lines -/

theorem word_text (v : Int) : Word (Integer.text v) := by
  have hdigit {n : Nat} {c : UInt8} (hc : c ∈ Integer.digits n) : isVisible c = true := by
    have hsome := Integer.isSome_digit? hc
    unfold Integer.digit? at hsome
    split at hsome
    · simp only [isVisible, numberSign, Bool.and_eq_true, decide_eq_true_eq] at *
      grind
    · cases hsome
  cases v with
  | ofNat n => exact ⟨Integer.digits_ne_nil n, fun c hc => hdigit hc⟩
  | negSucc n =>
      refine ⟨List.cons_ne_nil _ _, fun c hc => ?_⟩
      rcases List.mem_cons.mp hc with rfl | hc
      · decide
      · exact hdigit hc

theorem word_name {m : Material} (hm : m ∈ Material.all) : Word (ofString m.name) := by
  have hne : ∀ m ∈ Material.all, ofString m.name ≠ [] := by decide
  have hvisible : ∀ m ∈ Material.all, (ofString m.name).all isVisible = true := by decide
  exact ⟨hne m hm, List.all_eq_true.mp (hvisible m hm)⟩

/-- Known materials are told by their names. -/
theorem ofName?_name {m : Material} (hm : m ∈ Material.all) :
    Material.ofName? (ofString m.name) = some m := by
  have hall : ∀ m ∈ Material.all, Material.ofName? (ofString m.name) = some m := by decide
  exact hall m hm

theorem readCoordinate_text (x : Int32) : readCoordinate (Integer.text x.toInt) = .ok x := by
  have hrange : Integer.ofDecimalIn? Int32.minValue.toInt Int32.maxValue.toInt
      (Integer.text x.toInt) = some x.toInt := by
    rw [Integer.ofDecimalIn?, Integer.ofDecimal?_text, Option.filter_some, if_pos]
    simp only [Bool.and_eq_true, decide_eq_true_eq]
    exact ⟨x.minValue_le_toInt, x.toInt_le⟩
  rw [readCoordinate, hrange]
  exact congrArg Except.ok x.ofInt_toInt

/-- The words of the line for a block of material `m` at a position. -/
def lineWords (p : Position) (m : Material) : List Bytes :=
  [Integer.text p.x.toInt, Integer.text p.y.toInt, Integer.text p.z.toInt, ofString m.name]

/-- The line for a block of material `m` at a position. -/
def line (p : Position) (m : Material) : Bytes :=
  spaced (lineWords p m)

theorem word_of_mem_lineWords {p : Position} {m : Material} (hm : m ∈ Material.all) :
    ∀ word ∈ lineWords p m, Word word := by
  simp only [lineWords, List.forall_mem_cons, List.not_mem_nil, false_imp_iff, implies_true, and_true]
  exact ⟨word_text _, word_text _, word_text _, word_name hm⟩

/-- A line is read back as the block that it has been written for. -/
theorem readLine_line (p : Position) {m : Material} (hm : m ∈ Material.all) :
    readLine (line p m) = .ok (some (p, Block.placed m)) := by
  have hwords := word_of_mem_lineWords (p := p) hm
  have hsome : lineWords p m ≠ [] := List.cons_ne_nil _ _
  obtain ⟨first, rest, start, last, hfirst, hlast, hvisible, hvisible'⟩ := ends_spaced hsome hwords
  have hcontent : content (line p m) = line p m := by
    have hwhole : (line p m).takeWhile (· != numberSign) = line p m := by
      refine List.takeWhile_eq_self_iff.mpr fun c hc => ?_
      rcases mem_spaced hwords hc with hc | rfl
      · simp only [isVisible, Bool.and_eq_true] at hc
        exact hc.2
      · decide
    rw [content, hwhole]
    exact trim_of_isVisible hfirst hlast hvisible hvisible'
  have hfields : readFields (lineWords p m) = .ok (p, Block.placed m) := by
    simp [readFields, lineWords, readCoordinate_text, ofName?_name hm, bind, Except.bind, pure,
      Except.pure]
  have hne : (line p m).isEmpty = false := congrArg List.isEmpty hfirst
  rw [readLine, hcontent, hne, if_neg Bool.false_ne_true, line, fields_spaced hwords, hfields]
  rfl

/-! ## Files -/

/-- The file with a line for each of some blocks. -/
def written (blocks : List (Position × Material)) : Bytes :=
  (blocks.map fun x => line x.1 x.2).flatMap (· ++ [newline])

/-- Lines for known materials have no fault, and place what they have been written for. -/
theorem placements_lines {blocks : List (Position × Material)}
    (h : ∀ x ∈ blocks, x.2 ∈ Material.all) :
    firstFault? (blocks.map fun x => line x.1 x.2) = none ∧
      placements (blocks.map fun x => line x.1 x.2) =
        blocks.map fun x => (x.1, Block.placed x.2) := by
  induction blocks with
  | nil => exact ⟨rfl, rfl⟩
  | cons x blocks ih =>
      have hx := readLine_line x.1 (h x List.mem_cons_self)
      obtain ⟨hfault, hplaced⟩ := ih fun y hy => h y (List.mem_cons_of_mem _ hy)
      constructor
      · rw [List.map_cons, firstFault?, hx]
        dsimp only
        rw [hfault, Option.map_none]
      · rw [placements] at hplaced ⊢
        rw [List.map_cons, List.map_cons, List.filterMap_cons, hx, hplaced]
        rfl

/-- A file of known materials is read back as the world in which its blocks have been placed. -/
theorem read_written {blocks : List (Position × Material)} (h : ∀ x ∈ blocks, x.2 ∈ Material.all) :
    read (written blocks) =
      .ok (empty.placeAll (blocks.map fun x => (x.1, Block.placed x.2))) := by
  have hlines : (written blocks).lines = (blocks.map fun x => line x.1 x.2) ++ [[]] := by
    refine lines_flatMap fun l hl hnewline => ?_
    obtain ⟨x, hx, rfl⟩ := List.mem_map.mp hl
    rcases mem_spaced (word_of_mem_lineWords (h x hx)) hnewline with hvisible | heq
    · cases hvisible
    · cases heq
  obtain ⟨hfault, hplaced⟩ := placements_lines h
  -- the last line is blank, so that it has no fault and places nothing
  have hblank : firstFault? [[]] = none ∧ placements [[]] = [] := ⟨rfl, rfl⟩
  rw [read_eq_ok_iff, hlines, firstFault?_append, placements_append, hfault, hplaced, hblank.1,
    hblank.2, List.append_nil]
  exact ⟨rfl, rfl⟩

/-! ## Blocks at different positions -/

theorem mem_toList_placeAll {blocks : List (Position × Block)}
    (hnodup : (blocks.map Prod.fst).Nodup) (hair : ∀ x ∈ blocks, x.2.material ≠ .air)
    {x : Position × Block} : x ∈ (empty.placeAll blocks).toList ↔ x ∈ blocks := by
  obtain ⟨p, b⟩ := x
  rw [toList, Std.ExtTreeMap.mem_toList_iff_getElem?_eq_some, getElem?_placeAll,
    List.findRev?_eq_find?_reverse]
  cases hlast : blocks.reverse.find? fun placed => placed.1 = p with
  | none =>
      have hnone : (p, b) ∉ blocks := fun hmem => by
        have hne := List.find?_eq_none.mp hlast (p, b) (List.mem_reverse.mpr hmem)
        exact hne (decide_eq_true rfl)
      simp [empty, hnone]
  | some placed =>
      obtain rfl : placed.1 = p := of_decide_eq_true (List.find?_some hlast :)
      have hmem : placed ∈ blocks := List.mem_reverse.mp (List.mem_of_find?_eq_some hlast)
      simp only [if_neg (hair placed hmem), Option.some.injEq]
      constructor
      · rintro rfl
        exact hmem
      · intro hb
        -- no other block is at the same position
        rw [List.inj_on_of_nodup_map hnodup hmem hb rfl]

/-- Blocks other than air that are placed at different positions are those of the world. -/
theorem toList_placeAll_perm {blocks : List (Position × Block)}
    (hnodup : (blocks.map Prod.fst).Nodup) (hair : ∀ x ∈ blocks, x.2.material ≠ .air) :
    (empty.placeAll blocks).toList.Perm blocks := by
  have hkeys : ((empty.placeAll blocks).toList.map Prod.fst).Nodup := by
    rw [toList, Std.ExtTreeMap.map_fst_toList_eq_keys]
    exact Std.ExtTreeMap.nodup_keys
  rw [List.perm_ext_iff_of_nodup (List.Nodup.of_map _ hkeys) (List.Nodup.of_map _ hnodup)]
  exact fun _ => mem_toList_placeAll hnodup hair

end World

end Redstone
