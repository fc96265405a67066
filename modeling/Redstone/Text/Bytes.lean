/-!
# Byte strings

World files and artifacts are byte strings, and they need not be valid text.
Byte strings are lists, which proofs can take apart.  Text enters as its UTF-8
encoding and leaves either checked (`toString?`) or with every byte that belongs
to no character shown as the replacement character (`toStringLossy`).
-/

namespace Redstone

/-- A byte string. -/
abbrev Bytes := List UInt8

namespace Bytes

/-- The UTF-8 encoding of a text. -/
def ofString (s : String) : Bytes :=
  s.toByteArray.data.toList

/-- The bytes spell the given text. -/
def spells (b : Bytes) (s : String) : Bool :=
  b == ofString s

/-- The text with the given UTF-8 encoding, if the bytes are one. -/
def toString? (b : Bytes) : Option String :=
  String.fromUTF8? ⟨b.toArray⟩

/-- The byte continues a multi-byte character. -/
def isContinuation (b : UInt8) : Bool :=
  0x80 ≤ b && b < 0xC0

/-- The low six bits of a continuation byte. -/
def payload (b : UInt8) : Nat :=
  b.toNat % 64

/-- The character with the given code point, if it needs at least `least` to be
encoded in the length at hand and is a code point of a character. -/
def scalar? (least n : Nat) : Option Char :=
  if h : least ≤ n ∧ n.isValidChar then some (Char.ofNatAux n h.2) else none

/-- The character at the front of a byte string and the number of its bytes. -/
def frontChar? : Bytes → Option (Char × Nat)
  | [] => none
  | a :: rest =>
      if a < 0x80 then (scalar? 0 a.toNat).map (·, 1)
      else if a < 0xC0 then none
      else if a < 0xE0 then
        match rest with
        | b :: _ =>
            if isContinuation b then
              (scalar? 0x80 ((a.toNat - 0xC0) * 64 + payload b)).map (·, 2)
            else none
        | _ => none
      else if a < 0xF0 then
        match rest with
        | b :: c :: _ =>
            if isContinuation b && isContinuation c then
              (scalar? 0x800 (((a.toNat - 0xE0) * 64 + payload b) * 64 + payload c)).map (·, 3)
            else none
        | _ => none
      else
        match rest with
        | b :: c :: d :: _ =>
            if isContinuation b && isContinuation c && isContinuation d then
              (scalar? 0x10000
                ((((a.toNat - 0xF0) * 64 + payload b) * 64 + payload c) * 64 + payload d)).map (·, 4)
            else none
        | _ => none

/-- Reads characters; while `skip` bytes of the last one are left, they are
passed over. -/
def lossyChars : Nat → Bytes → List Char
  | _, [] => []
  | skip + 1, _ :: rest => lossyChars skip rest
  | 0, a :: rest =>
      match frontChar? (a :: rest) with
      | some (c, n) => c :: lossyChars (n - 1) rest
      | none => '\uFFFD' :: lossyChars 0 rest

/-- The text of a byte string, with a replacement character for every byte that
belongs to no character. -/
def toStringLossy (b : Bytes) : String :=
  String.ofList (lossyChars 0 b)

/-- The pieces between the bytes that satisfy `sep`.  There is one piece more than
there are separators. -/
def split (sep : UInt8 → Bool) (b : Bytes) : List Bytes :=
  b.foldr
    (fun c pieces =>
      if sep c then [] :: pieces
      else match pieces with
        | [] => [[c]]
        | piece :: others => (c :: piece) :: others)
    [[]]

/-- The byte that ends a line. -/
def newline : UInt8 := 0x0A

/-- The lines of a byte string.  A final line end is followed by an empty line. -/
def lines (b : Bytes) : List Bytes :=
  b.split (· == newline)

theorem split_ne_nil (sep : UInt8 → Bool) (b : Bytes) : b.split sep ≠ [] := by
  induction b with
  | nil => simp [split]
  | cons c b ih =>
      simp only [split, List.foldr_cons]
      split
      · simp
      · split <;> simp

theorem split_cons_of_sep {sep : UInt8 → Bool} {c : UInt8} (hc : sep c = true) (b : Bytes) :
    split sep (c :: b) = [] :: split sep b := by
  simp only [split, List.foldr_cons, hc, if_true]

theorem split_cons_of_not_sep {sep : UInt8 → Bool} {c : UInt8} (hc : ¬ sep c = true)
    {b piece : Bytes} {others : List Bytes} (hb : split sep b = piece :: others) :
    split sep (c :: b) = (c :: piece) :: others := by
  unfold split at hb ⊢
  rw [List.foldr_cons, if_neg hc, hb]

/-- A separator divides the pieces of what stands before it from those of what
stands after it. -/
theorem split_append_cons (sep : UInt8 → Bool) (a b : Bytes) (c : UInt8) (hc : sep c = true) :
    split sep (a ++ c :: b) = split sep a ++ split sep b := by
  induction a with
  | nil => exact split_cons_of_sep hc b
  | cons d a ih =>
      rw [List.cons_append]
      by_cases hd : sep d = true
      · rw [split_cons_of_sep hd, split_cons_of_sep hd, ih, List.cons_append]
      · obtain ⟨piece, others, ha⟩ := List.exists_cons_of_ne_nil (split_ne_nil sep a)
        rw [ha, List.cons_append] at ih
        rw [split_cons_of_not_sep hd ha, split_cons_of_not_sep hd ih, List.cons_append]

/-- There is one piece more than there are separators. -/
theorem length_split (sep : UInt8 → Bool) (b : Bytes) :
    (split sep b).length = b.countP sep + 1 := by
  induction b with
  | nil => rfl
  | cons c b ih =>
      by_cases hc : sep c = true
      · rw [split_cons_of_sep hc, List.countP_cons_of_pos hc, List.length_cons, ih]
      · obtain ⟨piece, others, hb⟩ := List.exists_cons_of_ne_nil (split_ne_nil sep b)
        rw [split_cons_of_not_sep hc hb, List.countP_cons_of_neg hc, ← ih, hb, List.length_cons,
          List.length_cons]

theorem lines_append_newline (a b : Bytes) :
    lines (a ++ newline :: b) = lines a ++ lines b :=
  split_append_cons _ a b newline (by decide)

/-- There is one line more than there are line ends. -/
theorem length_lines (b : Bytes) : b.lines.length = b.count newline + 1 :=
  length_split _ b

end Bytes

end Redstone
