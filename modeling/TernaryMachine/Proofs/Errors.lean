import TernaryMachine.Proofs.Declarations
import TernaryMachine.Proofs.Labels
import TernaryMachine.Proofs.Normal
/-! # Where a program goes wrong

An error names a line of its source, and which one follows from the pass that finds it.

* **First pass.**  It stops at the first line that it cannot lay out (`Layout.scan_error_cases`),
  so the lines below that one do not matter (`assemble_eq_error_of_take`).
* **Second pass.**  All that is left to go wrong is a label that no line declares
  (`Statement.resolve_eq_error_iff`, `Statement.exists_encode_of_resolve`), and the error names
  the first line that uses one.  `Retrace` is the second pass with nothing taken over from the
  first but the labels and the addresses: it reads every line again and compares addresses and
  sizes as it goes.  It never finds a difference (`Retrace.run_eq`). -/

namespace TernaryMachine

variable {labels : Table String Word} {line : Text.Line} {lines : List Text.Line}
  {fault : AssemblyFault}

/-! ### The first pass -/

namespace Layout

variable {l l' : Layout} {e : AssemblyError}

theorem scan_error_cases (h : l.scan lines = ⟨l', some e⟩) :
    ∃ before line after, lines = before ++ line :: after ∧ l.scan before = ⟨l', none⟩ ∧
      l'.place line = .error e.fault ∧ line.number = e.line := by
  induction lines generalizing l with
  | nil => cases h
  | cons line lines ih =>
    rw [scan] at h
    cases placed : l.place line with
    | error fault =>
      rw [placed] at h
      cases h
      exact ⟨[], line, lines, rfl, rfl, placed, rfl⟩
    | ok mid =>
      rw [placed] at h
      obtain ⟨before, stopped, after, rfl, scanned, failed, number⟩ := ih h
      exact ⟨line :: before, stopped, after, rfl, scan_cons_iff.mpr ⟨mid, placed, scanned⟩, failed,
        number⟩

/-- What the first pass finds wrong is never a label that no line declares, nor an instruction
without words. -/
theorem ne_of_place_eq_error (h : l.place line = .error fault) :
    (∀ name, fault ≠ .undeclaredLabel name) ∧ ∀ detail, fault ≠ .encode detail := by
  rw [place] at h
  split at h
  · next read =>
    cases h
    by_cases point : line.text.head? = some '.'
    · obtain ⟨rest, text⟩ := List.head?_eq_some_iff.mp point
      rw [text, Entry.parse_point] at read
      split at read
      · cases read
      · cases read
        simp
    · rw [Entry.parse_of_head point] at read
      cases parsed : Statement.parse line.text with
      | ok s =>
        rw [parsed] at read
        cases read
      | error fault =>
        rw [parsed] at read
        cases read
        obtain ⟨-, rfl⟩ | ⟨-, detail, rfl⟩ := Statement.parse_eq_error_cases parsed
        · simp
        · simp
  · rw [declare] at h
    split at h
    · cases h
      simp
    · cases h
  · rw [append] at h
    split at h
    · cases h
      simp
    · cases h

/-- A line of the second pass and the statement that the first pass placed for it. -/
def ReadAs (line : Text.Line) (p : Placed) : Prop :=
  line.number = p.line ∧ line.text.head? ≠ some '.' ∧ Statement.parse line.text = .ok p.statement

/-- The lines without a point in front: those that the second pass looks at. -/
def instructionLines (lines : List Text.Line) : List Text.Line :=
  lines.filter fun line => line.text.head? ≠ some '.'

/-- The first pass places one statement for each line that declares no label. -/
theorem readAs_of_scan (h : l.scan lines = ⟨l', none⟩) :
    ∃ ps, l'.placed = ps.reverse ++ l.placed ∧ List.Forall₂ ReadAs (instructionLines lines) ps := by
  induction lines generalizing l with
  | nil =>
    cases h
    exact ⟨[], rfl, .nil⟩
  | cons line lines ih =>
    obtain ⟨mid, placed, rest⟩ := scan_cons_iff.mp h
    obtain ⟨ps, grown, read⟩ := ih rest
    obtain ⟨name, address, parsed, -, rfl⟩ | ⟨s, parsed, -, rfl⟩ := place_eq_ok_iff.mp placed
    · refine ⟨ps, grown, ?_⟩
      have point : line.text.head? = some '.' := by
        by_contra none
        rw [Entry.parse_of_head none, map_eq_ok_iff] at parsed
        obtain ⟨s, -, other⟩ := parsed
        cases other
      rw [instructionLines, List.filter_cons_of_neg (by simp [point])]
      exact read
    · obtain ⟨no_point, parsed⟩ := Entry.parse_eq_statement_iff.mp parsed
      refine ⟨⟨l.length, line.number, s⟩ :: ps, ?_, ?_⟩
      · rw [grown, List.reverse_cons, List.append_assoc]
        rfl
      · rw [instructionLines, List.filter_cons_of_pos (by simp [no_point])]
        exact .cons ⟨rfl, no_point, parsed⟩ read

end Layout

/-! ### The second pass -/

namespace Statement

variable {cs : List Char} {s : Statement} {i : Instruction}

theorem resolve_eq_error_iff :
    s.resolve labels = .error fault ↔
      ∃ name, s.operand = .label name ∧ labels.find? name = none ∧
        fault = .undeclaredLabel name := by
  rw [resolve]
  cases s.operand with
  | register r => simp [Operand.resolve]
  | immediate w => simp [Operand.resolve]
  | label name =>
    rw [Operand.resolve]
    cases found : labels.find? name with
    | none => simp [found, eq_comm]
    | some address => simp [found]

/-- The instruction of a line always has words: an immediate is written in a form that holds it,
and only `sta` stores. -/
theorem exists_encode_of_resolve (parsed : parse cs = .ok s) (resolved : s.resolve labels = .ok i) :
    ∃ encoding, i.encode = .ok encoding := by
  refine Instruction.exists_encode_iff.mpr
    ⟨?_, (Instruction.regular_of_parse parsed resolved).store⟩
  have source := (resolve_eq_ok_iff.mp resolved).1
  cases operand : s.operand with
  | register r =>
    rw [operand, Operand.resolve, Except.ok.injEq] at source
    rw [← source]
    simp [Source.Fits]
  | immediate w =>
    rw [operand, Operand.resolve, Except.ok.injEq] at source
    rw [← source]
    exact Source.fits_immediate w
  | label name =>
    rw [operand] at source
    obtain ⟨address, -, word⟩ := Operand.resolve_label_eq_ok_iff.mp source
    rw [word]
    simp [Source.Fits]

end Statement

/-- Why the second pass stops at a line: the line is wrong, or the passes disagree about it. -/
inductive Stop where
  | fault (fault : AssemblyFault)
  /-- The instruction does not begin where the one before it ends. -/
  | address
  /-- The instruction has not the number of words of its statement. -/
  | size

/-- The second pass at some line. -/
structure Retrace where
  emission : Emission
  /-- The addresses that the first pass gave to the lines from here on. -/
  addresses : List Nat
  /-- Where the last instruction ends. -/
  cursor : Int

namespace Retrace

def address (r : Retrace) : Int :=
  match r.addresses with
  | [] => r.cursor
  | address :: _ => address

/-- Reads a line again, and emits its instruction if the first pass took it for the same one. -/
def emit (labels : Table String Word) (r : Retrace) (line : Text.Line) : Except Stop Retrace := do
  let s ← (Statement.parse line.text).mapError .fault
  let i ← (s.resolve labels).mapError .fault
  if r.address ≠ r.cursor then
    .error .address
  else if i.words ≠ s.words then
    .error .size
  else do
    let encoding ← i.encode.mapError fun e => .fault (.encode e)
    let memory ← (Emission.storeWords r.emission.memory r.address encoding.words).mapError .fault
    return ⟨⟨memory, (r.address, i) :: r.emission.instructions,
      (r.address, line.number) :: r.emission.sourceLines⟩, r.addresses.tail, r.address + i.words⟩

/-- Goes over lines in order; a stop comes with the number of its line. -/
def run (labels : Table String Word) (r : Retrace) : List Text.Line → Except (Nat × Stop) Retrace
  | [] => .ok r
  | line :: lines =>
    match r.emit labels line with
    | .ok r => run labels r lines
    | .error stop => .error (line.number, stop)

/-- What the second pass gives, as a result of a second pass that checks nothing. -/
def ofEmission (stop : Int) : Except AssemblyError Emission → Except (Nat × Stop) Retrace
  | .ok e => .ok ⟨e, [], stop⟩
  | .error e => .error (e.line, .fault e.fault)

variable {e : Emission} {p : Placed} {ps : List Placed} {start stop : Int}

/-- The two passes agree about a line that is placed at the end of the last instruction. -/
theorem emit_eq (read : Layout.ReadAs line p) (rest : List Nat)
    (fits : p.address + p.statement.words ≤ Word.limit + 1) :
    (Retrace.mk e (p.address :: rest) p.address).emit labels line =
      match e.emit labels p with
      | .ok e => .ok ⟨e, rest, p.address + p.statement.words⟩
      | .error fault => .error (.fault fault) := by
  obtain ⟨number, -, parsed⟩ := read
  rw [emit, parsed, Emission.emit, number]
  cases resolved : p.statement.resolve labels with
  | error fault => simp [resolved, bind, Except.bind, Except.mapError]
  | ok i =>
    have words := Statement.words_of_resolve resolved
    obtain ⟨encoding, encoded⟩ := Statement.exists_encode_of_resolve parsed resolved
    rw [← words, ← Instruction.length_words_of_encode encoded] at fits
    have lower : -Word.limit ≤ (p.address : Int) := by
      simp only [Word.limit]
      omega
    obtain ⟨m, stored⟩ := Emission.storeWords_eq_ok e.memory lower fits
    simp [resolved, encoded, stored, words, address, bind, Except.bind, Except.mapError, pure,
      Except.pure]

/-- Over a whole program too: the second pass never stops because the passes disagree. -/
theorem run_eq (read : List.Forall₂ Layout.ReadAs lines ps)
    (tiles : Tiles (fun p => (p.address : Int)) (fun p => p.statement.words) start ps stop)
    (fits : stop ≤ Word.limit + 1) :
    (Retrace.mk e (ps.map Placed.address) start).run labels lines =
      ofEmission stop (e.emitAll labels ps) := by
  induction read generalizing e start with
  | nil =>
    obtain rfl : start = stop := tiles
    rfl
  | @cons line p lines ps here _ ih =>
    obtain ⟨rfl, rest⟩ := tiles
    rw [List.map_cons, run, emit_eq here _ (rest.start_le_stop.trans fits), Emission.emitAll]
    cases e.emit labels p with
    | ok e => exact ih rest
    | error fault =>
      dsimp only [ofEmission]
      rw [here.1]

end Retrace

/-! ### Labels that are not declared -/

/-- Whether a statement with this label for its operand is on a line. -/
def Text.Line.Refers (line : Line) (name : String) : Prop :=
  line.statement?.isSome = true ∧ line.operand? = some ('.' :: name.toList)

theorem Text.Line.Refers.no_point {name : String} (h : line.Refers name) :
    line.text.head? ≠ some '.' := by
  obtain ⟨s, statement⟩ := Option.isSome_iff_exists.mp h.1
  exact (Entry.parse_eq_statement_iff.mp (statement?_eq_some_iff.mp statement)).1

theorem Layout.ReadAs.refers_iff {p : Placed} (read : Layout.ReadAs line p) {name : String} :
    line.Refers name ↔ p.statement.operand = .label name := by
  obtain ⟨-, no_point, parsed⟩ := read
  have statement : line.statement? = some p.statement :=
    Text.Line.statement?_eq_some_iff.mpr (Entry.parse_eq_statement_iff.mpr ⟨no_point, parsed⟩)
  rw [Statement.operand_eq_label_iff parsed, Text.Line.Refers, statement]
  simp [Text.Line.operand?]

/-- A name is used on line `n` and declared nowhere, and no line before uses such a name. -/
def FirstUndeclared (lines : List Text.Line) (n : Nat) (name : String) : Prop :=
  ∃ before line after, lines = before ++ line :: after ∧ line.number = n ∧ line.Refers name ∧
    name ∉ declaredNames lines ∧
    ∀ other ∈ before, ∀ used, other.Refers used → used ∈ declaredNames lines

namespace Emission

variable {e : Emission} {err : AssemblyError} {ps : List Placed} {start stop : Int}

/-- The second pass fails at the first line that uses a label that is not in the table. -/
theorem emitAll_error_cases (read : List.Forall₂ Layout.ReadAs lines ps)
    (tiles : Tiles (fun p => (p.address : Int)) (fun p => p.statement.words) start ps stop)
    (lower : -Word.limit ≤ start) (fits : stop ≤ Word.limit + 1)
    (h : e.emitAll labels ps = .error err) :
    ∃ before line after name, lines = before ++ line :: after ∧ line.number = err.line ∧
      err.fault = .undeclaredLabel name ∧ line.Refers name ∧ labels.find? name = none ∧
      ∀ other ∈ before, ∀ used, other.Refers used → labels.find? used ≠ none := by
  induction read generalizing e start with
  | nil => cases h
  | @cons line p lines ps here _ ih =>
    obtain ⟨rfl, rest⟩ := tiles
    have ends := rest.start_le_stop
    rw [emitAll] at h
    cases resolved : p.statement.resolve labels with
    | error fault =>
      have failed : e.emit labels p = .error fault := by
        simp [emit, resolved, bind, Except.bind]
      rw [failed] at h
      cases h
      obtain ⟨name, operand, absent, undeclared⟩ := Statement.resolve_eq_error_iff.mp resolved
      exact ⟨[], line, lines, name, rfl, here.1, undeclared, here.refers_iff.mpr operand, absent,
        by simp⟩
    | ok i =>
      obtain ⟨encoding, encoded⟩ := Statement.exists_encode_of_resolve here.2.2 resolved
      let b : Block := ⟨p, i, encoding⟩
      have block : b.Resolved labels := ⟨resolved, encoded⟩
      obtain ⟨m, -, emitted⟩ := emit_eq_ok e block lower (by
        rw [block.size_eq]
        exact ends.trans fits)
      rw [show b.placed = p from rfl] at emitted
      rw [emitted] at h
      obtain ⟨before, stopped, after, name, rfl, number, undeclared, refers, absent, declared⟩ :=
        ih rest (by omega) h
      refine ⟨line :: before, stopped, after, name, rfl, number, undeclared, refers, absent, ?_⟩
      refine List.forall_mem_cons.mpr ⟨fun used uses absent => ?_, declared⟩
      have failed := Statement.resolve_eq_error_iff.mpr
        ⟨used, here.refers_iff.mp uses, absent, rfl⟩
      rw [resolved] at failed
      cases failed

end Emission

/-! ### Errors of a program -/

/-- A line that the first pass cannot lay out is the error of every source with the same lines up to
there. -/
theorem assemble_eq_error_of_take {source source' : String} {l : Layout}
    (reached : l.Reaches source line) (failed : l.place line = .error fault)
    (same : (Text.lines source'.toList).take line.number =
      (Text.lines source.toList).take line.number) :
    assemble source' = .error ⟨line.number, fault⟩ := by
  obtain ⟨before, after, split, scanned⟩ := reached
  have upper : Text.numbered 0 ((Text.lines source.toList).take line.number) = before ++ [line] :=
    Text.numbered_take split
  have parts := Text.numbered_append 0 ((Text.lines source'.toList).take line.number)
    ((Text.lines source'.toList).drop line.number)
  rw [List.take_append_drop, same, upper, List.append_assoc] at parts
  exact assemble_eq_error_of_reaches ⟨before, _, parts, scanned⟩ failed

namespace Layout

variable {source : List Char} {l : Layout}

/-- The second pass over the lines of a layout, with all of its checks. -/
def retrace (l : Layout) (lines : List Text.Line) : Except (Nat × Stop) Retrace :=
  Retrace.run l.labels ⟨.empty, l.placed.reverse.map Placed.address, 0⟩ (instructionLines lines)

theorem readAs_of_ofSource (h : ofSource source = ⟨l, none⟩) :
    List.Forall₂ ReadAs (instructionLines (Text.significantLines source)) l.placed.reverse := by
  obtain ⟨ps, placed, read⟩ := readAs_of_scan h
  rw [placed]
  simpa [empty] using read

theorem retrace_eq (h : ofSource source = ⟨l, none⟩) :
    l.retrace (Text.significantLines source) =
      Retrace.ofEmission l.length (Emission.empty.emitAll l.labels l.placed.reverse) := by
  have sound := Sound.ofSource h
  exact Retrace.run_eq (readAs_of_ofSource h) sound.tiles sound.fits

theorem find?_labels_eq_none_iff (h : ofSource source = ⟨l, none⟩) {name : String} :
    l.labels.find? name = none ↔ name ∉ declaredNames (Text.significantLines source) := by
  rw [Table.find?_eq_none_iff, (declares_of_ofSource h).names]

/-- The second pass fails at the first line that uses a label which no line declares. -/
theorem firstUndeclared_of_emitAll {e : AssemblyError} (h : ofSource source = ⟨l, none⟩)
    (failed : Emission.empty.emitAll l.labels l.placed.reverse = .error e) :
    ∃ name, e.fault = .undeclaredLabel name ∧
      FirstUndeclared (Text.significantLines source) e.line name := by
  have sound := Sound.ofSource h
  obtain ⟨before, line, after, name, split, number, undeclared, refers, absent, declared⟩ :=
    Emission.emitAll_error_cases (readAs_of_ofSource h) sound.tiles (by decide) sound.fits failed
  obtain ⟨upper, lower, whole, rfl, below⟩ := List.filter_eq_append_iff.mp split
  obtain ⟨between, after, rfl, labels, -, -⟩ := List.filter_eq_cons_iff.mp below
  refine ⟨name, undeclared, upper ++ between, line, after, ?_, number, refers,
    (find?_labels_eq_none_iff h).mp absent, fun other mem used uses => ?_⟩
  · rw [whole, List.append_assoc]
  · by_contra undeclared
    have no_point := uses.no_point
    rcases List.mem_append.mp mem with mem | mem
    · exact declared other (List.mem_filter.mpr ⟨mem, by simpa using no_point⟩) used uses
        ((find?_labels_eq_none_iff h).mpr undeclared)
    · exact labels other mem (by simpa using no_point)

end Layout

variable {source : String} {e : AssemblyError}

theorem assemble_of_ofSource {l : Layout} (h : Layout.ofSource source.toList = ⟨l, none⟩) :
    assemble source = l.toProgram := by
  rw [assemble, h]
  rfl

theorem assemble_error_cases (h : assemble source = .error e) :
    (∃ line l, Layout.Reaches source line l ∧ l.place line = .error e.fault ∧
        line.number = e.line) ∨
      ∃ l name, Layout.ofSource source.toList = ⟨l, none⟩ ∧ e.fault = .undeclaredLabel name ∧
        FirstUndeclared (Text.significantLines source.toList) e.line name := by
  cases scanned : Layout.ofSource source.toList with
  | mk l error =>
    cases error with
    | some e =>
      rw [assemble, scanned] at h
      cases h
      obtain ⟨before, line, after, split, scanned, failed, number⟩ :=
        Layout.scan_error_cases scanned
      exact .inl ⟨line, l, ⟨before, after, split, scanned⟩, failed, number⟩
    | none =>
      rw [assemble_of_ofSource scanned, Layout.toProgram] at h
      split at h
      · next e' failed =>
        cases h
        obtain ⟨name, undeclared, first⟩ := Layout.firstUndeclared_of_emitAll scanned failed
        exact .inr ⟨l, name, rfl, undeclared, first⟩
      · cases h

theorem exists_line_of_error (h : assemble source = .error e) :
    ∃ line ∈ Text.significantLines source.toList, line.number = e.line := by
  obtain ⟨line, l, ⟨before, after, split, -⟩, -, number⟩ |
    ⟨l, name, -, -, before, line, after, split, number, -⟩ := assemble_error_cases h
  · exact ⟨line, by simp [split], number⟩
  · exact ⟨line, by simp [split], number⟩

/-- How the errors of a source are attributed to its lines. -/
structure AttributesErrors (source : String) : Prop where
  number {e : AssemblyError} : assemble source = .error e →
    1 ≤ e.line ∧ e.line ≤ (Text.lines source.toList).length
  /-- An error of the first pass is that of every source with the same lines up to there. -/
  above {e : AssemblyError} : assemble source = .error e →
    (∀ name, e.fault ≠ .undeclaredLabel name) → ∀ source' : String,
      (Text.lines source'.toList).take e.line = (Text.lines source.toList).take e.line →
        assemble source' = .error e
  /-- An error of the second pass is at the first line that uses a label which no line declares. -/
  undeclared {e : AssemblyError} {name : String} : assemble source = .error e →
    e.fault = .undeclaredLabel name →
      (∃ l, Layout.ofSource source.toList = ⟨l, none⟩) ∧
        FirstUndeclared (Text.significantLines source.toList) e.line name
  encode {e : AssemblyError} {detail : EncodeError} : assemble source = .error e →
    e.fault ≠ .encode detail
  /-- With all of its checks, the second pass stops for no other reason. -/
  stops {l : Layout} {n : Nat} {stop : Stop} : Layout.ofSource source.toList = ⟨l, none⟩ →
    l.retrace (Text.significantLines source.toList) = .error (n, stop) →
      ∃ name, stop = .fault (.undeclaredLabel name) ∧
        assemble source = .error ⟨n, .undeclaredLabel name⟩
  /-- Where it does not stop, it ends with the program. -/
  ends {l : Layout} {r : Retrace} : Layout.ofSource source.toList = ⟨l, none⟩ →
    l.retrace (Text.significantLines source.toList) = .ok r →
      ∃ p, assemble source = .ok p ∧ p.memory = r.emission.memory ∧
        p.info.instructions = r.emission.instructions.reverse ∧
        p.info.sourceLines = r.emission.sourceLines.reverse ∧ p.info.length = r.cursor ∧
        r.addresses = []

/-- **Errors**: the first pass stops at the first line that is wrong by itself or does not fit, and
the second at the first line with a label that is declared nowhere; no program fails otherwise. -/
theorem attributes_errors (source : String) : AttributesErrors source where
  number {e} failed := by
    obtain ⟨line, mem, number⟩ := exists_line_of_error failed
    have mem : line ∈ Text.numbered 0 (Text.lines source.toList) := mem
    have lower := Text.lt_number_of_mem_numbered mem
    have upper := Text.number_le_of_mem_numbered mem
    omega
  above {e} failed other source' same := by
    obtain ⟨line, l, reached, stopped, number⟩ | ⟨l, name, -, undeclared, -⟩ :=
      assemble_error_cases failed
    · rw [← number] at same
      rw [assemble_eq_error_of_take reached stopped same, number]
    · exact absurd undeclared (other name)
  undeclared {e name} failed undeclared := by
    obtain ⟨line, l, -, stopped, -⟩ | ⟨l, name', scanned, same, first⟩ :=
      assemble_error_cases failed
    · exact absurd undeclared ((Layout.ne_of_place_eq_error stopped).1 name)
    · rw [undeclared, AssemblyFault.undeclaredLabel.injEq] at same
      subst same
      exact ⟨⟨l, scanned⟩, first⟩
  encode {e detail} failed encode := by
    obtain ⟨line, l, -, stopped, -⟩ | ⟨l, name, -, undeclared, -⟩ := assemble_error_cases failed
    · exact (Layout.ne_of_place_eq_error stopped).2 detail encode
    · rw [encode] at undeclared
      cases undeclared
  stops {l n stop} scanned stopped := by
    rw [Layout.retrace_eq scanned] at stopped
    cases emitted : Emission.empty.emitAll l.labels l.placed.reverse with
    | ok e =>
      rw [emitted] at stopped
      cases stopped
    | error e =>
      rw [emitted] at stopped
      cases stopped
      obtain ⟨name, undeclared, -⟩ := Layout.firstUndeclared_of_emitAll scanned emitted
      refine ⟨name, by rw [undeclared], ?_⟩
      rw [assemble_of_ofSource scanned, ← undeclared]
      simp only [Layout.toProgram, emitted]
  ends {l r} scanned ended := by
    rw [Layout.retrace_eq scanned] at ended
    cases emitted : Emission.empty.emitAll l.labels l.placed.reverse with
    | error e =>
      rw [emitted] at ended
      cases ended
    | ok e =>
      rw [emitted] at ended
      cases ended
      have assembled := assemble_of_ofSource scanned
      simp only [Layout.toProgram, emitted] at assembled
      exact ⟨_, assembled, rfl, rfl, rfl, rfl, rfl⟩

/-- Below a line with a label that is not declared, a line with an unknown mnemonic is found
first. -/
example : assemble "\nJMP .nowhere\nFOO r0" = .error ⟨3, .unknownMnemonic "FOO"⟩ := by
  decide +kernel

end TernaryMachine
