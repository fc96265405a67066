import Redstone.World.Reader

/-!
# World files line by line

Reading a world file does two things that do not depend on one another: it looks for the first line
that cannot be read, and it places the blocks of the lines before it.  A file that is continued on a
new line has the lines of both parts.  Its first fault is that of the first part or else that of the
second part, further down; without a fault, the blocks of the second part are placed in the world of
the first part.

The world keeps for each position what the last line for it says, so that lines for different
positions may change places.
-/

namespace Redstone.World

variable {p q : Position} {b c : Block}

/-! ## Placing blocks -/

/-- Places blocks one after the other. -/
def placeAll (w : World) (placements : List (Position × Block)) : World :=
  placements.foldl (fun w placed => w.set placed.1 placed.2) w

theorem placeAll_append (w : World) (first second : List (Position × Block)) :
    w.placeAll (first ++ second) = (w.placeAll first).placeAll second :=
  List.foldl_append

/-- The last placement at a position counts; without one, the position is as it was. -/
theorem getElem?_placeAll (w : World) (placements : List (Position × Block)) (q : Position) :
    (w.placeAll placements).blocks[q]? =
      match placements.findRev? fun placed => placed.1 = q with
      | some placed => if placed.2.material = .air then none else some placed.2
      | none => w.blocks[q]? := by
  induction placements generalizing w with
  | nil => rfl
  | cons placed rest ih =>
      change ((w.set placed.1 placed.2).placeAll rest).blocks[q]? = _
      rw [ih, List.findRev?]
      cases hlast : rest.findRev? fun placed => placed.1 = q with
      | some later => rfl
      | none =>
          rw [getElem?_set]
          by_cases hq : placed.1 = q <;> simp [hq]

@[simp] theorem pending_set (w : World) (p : Position) (b : Block) :
    (w.set p b).pending = w.pending := by
  unfold set
  split <;> rfl

/-- Worlds are equal if they agree at every position and in their ticks. -/
theorem ext_of_getElem? {w w' : World} (hblocks : ∀ x : Position, w.blocks[x]? = w'.blocks[x]?)
    (hpending : w.pending = w'.pending) : w = w' := by
  obtain ⟨blocks, pending⟩ := w
  obtain ⟨blocks', pending'⟩ := w'
  cases Std.ExtTreeMap.ext_getElem? hblocks
  cases hpending
  rfl

/-- Blocks are placed at different positions in any order. -/
theorem set_comm (w : World) (h : p ≠ q) (b c : Block) :
    (w.set p b).set q c = (w.set q c).set p b := by
  refine ext_of_getElem? (fun x => ?_) (by simp only [pending_set])
  simp only [getElem?_set]
  by_cases hp : p = x <;> by_cases hq : q = x
  · exact absurd (hp.trans hq.symm) h
  all_goals simp [hp, hq]

/-! ## Faults and placements -/

/-- The first line that cannot be read: how many lines come before it, and what is wrong with it. -/
def firstFault? : List Bytes → Option (Nat × LineError)
  | [] => none
  | line :: rest =>
      match readLine line with
      | .error cause => some (0, cause)
      | .ok _ => (firstFault? rest).map fun fault => (fault.1 + 1, fault.2)

/-- The blocks that the lines place, in their order. -/
def placements (lines : List Bytes) : List (Position × Block) :=
  lines.filterMap fun line => (readLine line).toOption.join

theorem placements_append (first second : List Bytes) :
    placements (first ++ second) = placements first ++ placements second :=
  List.filterMap_append

theorem firstFault?_append (first second : List Bytes) :
    firstFault? (first ++ second) =
      (firstFault? first).or
        ((firstFault? second).map fun fault => (first.length + fault.1, fault.2)) := by
  induction first with
  | nil => simp [firstFault?]
  | cons line first ih =>
      rw [List.cons_append, firstFault?, firstFault?]
      cases readLine line with
      | error cause => rfl
      | ok placement =>
          dsimp only
          rw [ih]
          cases firstFault? first with
          | some fault => rfl
          | none =>
              cases firstFault? second with
              | none => rfl
              | some fault => simp [Nat.add_right_comm]

/-- Reading ends at the first fault; without a fault, it places the blocks of all lines. -/
theorem readLines_eq (n : Nat) (w : World) (lines : List Bytes) :
    readLines n w lines =
      match firstFault? lines with
      | some fault => .error { line := n + fault.1, cause := fault.2 }
      | none => .ok (w.placeAll (placements lines)) := by
  induction lines generalizing n w with
  | nil => rfl
  | cons line rest ih =>
      rw [readLines, firstFault?]
      cases hline : readLine line with
      | error cause => rfl
      | ok placement =>
          dsimp only
          rw [ih]
          cases firstFault? rest with
          | some fault => simp [Nat.add_comm, Nat.add_left_comm]
          | none =>
              have hplaced : (w.place placement).placeAll (placements rest) =
                  w.placeAll (placements (line :: rest)) := by
                rw [placements, placements, List.filterMap_cons, hline]
                cases placement <;> rfl
              exact congrArg Except.ok hplaced

theorem read_eq_error_iff {data : Bytes} {e : ReadError} :
    read data = .error e ↔
      ∃ fault, firstFault? data.lines = some fault ∧
        e = { line := 1 + fault.1, cause := fault.2 } := by
  rw [read, readLines_eq]
  cases firstFault? data.lines with
  | none => simp
  | some fault => simp [eq_comm]

theorem read_eq_ok_iff {data : Bytes} {w : World} :
    read data = .ok w ↔
      firstFault? data.lines = none ∧ w = empty.placeAll (placements data.lines) := by
  rw [read, readLines_eq]
  cases firstFault? data.lines with
  | none => simp [eq_comm]
  | some fault => simp

/-! ## A file that is continued -/

variable {first second : Bytes}

theorem read_append_of_error {e : ReadError} (h : read first = .error e) (second : Bytes) :
    read (first ++ Bytes.newline :: second) = .error e := by
  obtain ⟨fault, hfault, rfl⟩ := read_eq_error_iff.mp h
  refine read_eq_error_iff.mpr ⟨fault, ?_, rfl⟩
  rw [Bytes.lines_append_newline, firstFault?_append, hfault, Option.some_or]

/-- The faults of the second part are further down by the lines of the first part. -/
theorem read_append_of_ok_of_error {w : World} {e : ReadError} (h : read first = .ok w)
    (h' : read second = .error e) :
    read (first ++ Bytes.newline :: second) =
      .error { line := first.count Bytes.newline + 1 + e.line, cause := e.cause } := by
  obtain ⟨hnone, -⟩ := read_eq_ok_iff.mp h
  obtain ⟨fault, hfault, rfl⟩ := read_eq_error_iff.mp h'
  refine read_eq_error_iff.mpr ⟨(first.lines.length + fault.1, fault.2), ?_, ?_⟩
  · rw [Bytes.lines_append_newline, firstFault?_append, hnone, hfault, Option.none_or,
      Option.map_some]
  · rw [Bytes.length_lines]
    congr 1
    exact (Nat.add_left_comm _ _ _).symm

theorem read_append_of_ok {w w' : World} (h : read first = .ok w) (h' : read second = .ok w') :
    read (first ++ Bytes.newline :: second) = .ok (w.placeAll (placements second.lines)) := by
  obtain ⟨hnone, rfl⟩ := read_eq_ok_iff.mp h
  obtain ⟨hnone', -⟩ := read_eq_ok_iff.mp h'
  refine read_eq_ok_iff.mpr ⟨?_, ?_⟩
  · rw [Bytes.lines_append_newline, firstFault?_append, hnone, hnone', Option.none_or,
      Option.map_none]
  · rw [Bytes.lines_append_newline, placements_append, placeAll_append]

/-! ## Lines that change places -/

/-- Two lines for different positions may change places, also in a file with a fault elsewhere. -/
theorem read_swap {data data' : Bytes} {before after : List Bytes} {line line' : Bytes}
    (hline : readLine line = .ok (some (p, b))) (hline' : readLine line' = .ok (some (q, c)))
    (hne : p ≠ q) (hdata : data.lines = before ++ line :: line' :: after)
    (hdata' : data'.lines = before ++ line' :: line :: after) : read data = read data' := by
  have hfault : firstFault? data.lines = firstFault? data'.lines := by
    rw [hdata, hdata', firstFault?_append, firstFault?_append]
    simp only [firstFault?, hline, hline']
  have hplaced : empty.placeAll (placements data.lines) =
      empty.placeAll (placements data'.lines) := by
    rw [hdata, hdata', placements_append, placements_append, placeAll_append, placeAll_append]
    simp only [placements, List.filterMap_cons, hline, hline', Except.toOption, Option.join_some]
    exact congrArg (placeAll · _) (set_comm _ hne b c)
  rw [read, read, readLines_eq, readLines_eq, hfault, hplaced]

/-- **World files are read line by line.**  Let a file be continued on a new line.  If its first
part has a fault, the file has the same one.  If only the second part has a fault, the file has it
further down, by the lines of the first part, with the same wording.  Otherwise the file is read,
and its world is that of the first part with the blocks of the lines of the second part placed one
after the other: the last line for a position counts, air clears the position, and a position
without a line is as before.  Two lines one after the other that are for different positions may
change places. -/
theorem files_are_read_line_by_line (source : String) (first second : Bytes) :
    (∀ e, read first = .error e → read (first ++ Bytes.newline :: second) = .error e) ∧
      (∀ w e, read first = .ok w → read second = .error e →
        ∃ e', read (first ++ Bytes.newline :: second) = .error e' ∧ e'.cause = e.cause ∧
          e'.line = first.count Bytes.newline + 1 + e.line ∧
          e'.message source =
            Bytes.ofString
                (source ++ ":" ++ toString (first.count Bytes.newline + 1 + e.line) ++ ": ") ++
              e.cause.message) ∧
      (∀ w w', read first = .ok w → read second = .ok w' →
        w' = empty.placeAll (placements second.lines) ∧
          ∃ v, read (first ++ Bytes.newline :: second) = .ok v ∧
            v = w.placeAll (placements second.lines) ∧
            ∀ q : Position, v.blocks[q]? =
              match (placements second.lines).findRev? fun placed => placed.1 = q with
              | some placed => if placed.2.material = .air then none else some placed.2
              | none => w.blocks[q]?) ∧
      ∀ (data data' : Bytes) (before after : List Bytes) (line line' : Bytes) (p q : Position)
        (b c : Block), readLine line = .ok (some (p, b)) → readLine line' = .ok (some (q, c)) →
        p ≠ q → data.lines = before ++ line :: line' :: after →
        data'.lines = before ++ line' :: line :: after → read data = read data' := by
  refine ⟨fun e he => read_append_of_error he second,
    fun w e hw he => ⟨_, read_append_of_ok_of_error hw he, rfl, rfl, rfl⟩,
    fun w w' hw hw' => ⟨(read_eq_ok_iff.mp hw').2, _, read_append_of_ok hw hw', rfl,
      getElem?_placeAll w _⟩, ?_⟩
  intro data data' before after line line' p q b c hline hline' hne hdata hdata'
  exact read_swap hline hline' hne hdata hdata'

/-- A lamp and a lever, with a comment, a blank line and carriage returns. -/
def lampAndLever : Bytes :=
  Bytes.ofString "0 0 0 lamp # lit\r\n\r\n1 0 0 lever facing=up\r"

/-- The lamp goes, and a torch takes the place of the lever. -/
def torchAlone : Bytes :=
  Bytes.ofString "0 0 0 air\n1 0 0 torch\n"

/-- The same lines the other way round. -/
def torchFirst : Bytes :=
  Bytes.ofString "1 0 0 torch\n0 0 0 air\n"

/-- The second line has too few fields. -/
def shortLine : Bytes :=
  Bytes.ofString "# next\n2 0 lamp"

/-- The short line is the second line of a file that goes on after it, and the fifth one behind the
lamp and the lever.  Continued with the air and the torch, the file of the lamp and the lever is
left with the torch alone, and the lines of the air and the torch may change places. -/
theorem files_are_read_line_by_line_torchAlone :
    (∃ e, read (shortLine ++ Bytes.newline :: lampAndLever) = .error e ∧ e.line = 2) ∧
      (∃ e, read (lampAndLever ++ Bytes.newline :: shortLine) = .error e ∧ e.line = 5) ∧
      (∃ v, read (lampAndLever ++ Bytes.newline :: torchAlone) = .ok v ∧
        v.blocks[(⟨0, 0, 0⟩ : Position)]? = none ∧
        v.blocks[(⟨1, 0, 0⟩ : Position)]? = some (Block.placed .torch)) ∧
      read torchAlone = read torchFirst := by
  have hfirst : read lampAndLever = .ok (empty.placeAll (placements lampAndLever.lines)) :=
    read_eq_ok_iff.mpr ⟨by decide +kernel, rfl⟩
  have hsecond : read torchAlone = .ok (empty.placeAll (placements torchAlone.lines)) :=
    read_eq_ok_iff.mpr ⟨by decide +kernel, rfl⟩
  have hshort : read shortLine = .error
      { line := 2, cause := .missingFields (["2", "0", "lamp"].map Bytes.ofString) } :=
    read_eq_error_iff.mpr ⟨(1, _), by decide +kernel, rfl⟩
  obtain ⟨hsame, -⟩ := files_are_read_line_by_line "a.world" shortLine lampAndLever
  obtain ⟨-, hlater, -⟩ := files_are_read_line_by_line "a.world" lampAndLever shortLine
  obtain ⟨-, -, hplaced, hswap⟩ := files_are_read_line_by_line "a.world" lampAndLever torchAlone
  refine ⟨⟨_, hsame _ hshort, rfl⟩, ?_, ?_, ?_⟩
  · obtain ⟨e, hread, -, hline, -⟩ := hlater _ _ hfirst hshort
    exact ⟨e, hread, hline.trans (by decide +kernel)⟩
  · obtain ⟨-, v, hread, -, hblocks⟩ := hplaced _ _ hfirst hsecond
    exact ⟨v, hread, (hblocks _).trans (by decide +kernel), (hblocks _).trans (by decide +kernel)⟩
  · exact hswap torchAlone torchFirst [] [[]] (Bytes.ofString "0 0 0 air")
      (Bytes.ofString "1 0 0 torch") ⟨0, 0, 0⟩ ⟨1, 0, 0⟩ (Block.placed .air) (Block.placed .torch)
      rfl rfl (by decide) (by decide +kernel) (by decide +kernel)

end Redstone.World
