import ClassOutline.Proofs.Scan.Counts
import ClassOutline.Scan.Project
import Mathlib.Algebra.BigOperators.Group.List.Basic
import Mathlib.Algebra.Ring.Nat
/-!
# Records of a project

A project is made by recording one outcome after the other.  Its files are the outcomes that are
scans, and its failures are the others, each list in the order of the records.

The tally of a project adds up those of its files, so it does not depend on their order.  If the
files are scans of sources, then the tally of the project says as much about all of them as the
tally of a scan says about one source.
-/

namespace ClassOutline

/-! ## Tallies -/

namespace Tally

/-- The counts of a tally. -/
def fields : List (Tally → Nat) :=
  [blocks, classes, rejected, members, unresolved]

theorem field_add
    {field : Tally → Nat}
    (isField : field ∈ fields)
    (left right : Tally) :
    field (left + right) = field left + field right := by
  simp only [fields, List.mem_cons, List.not_mem_nil, or_false] at isField
  rcases isField with rfl | rfl | rfl | rfl | rfl <;> rfl

theorem field_zero
    {field : Tally → Nat}
    (isField : field ∈ fields) :
    field {} = 0 := by
  simp only [fields, List.mem_cons, List.not_mem_nil, or_false] at isField
  rcases isField with rfl | rfl | rfl | rfl | rfl <;> rfl

theorem add_right_comm
    (first second third : Tally) :
    first + second + third = first + third + second := by
  ext <;> exact Nat.add_right_comm _ _ _

end Tally

/-! ## Files -/

/-- What a file holds is the scan of some source. -/
def FileScan.IsScan (file : FileScan) : Prop :=
  ∃ options source,
    file.outlines = (Scan.ofSource options source).outlines ∧
      file.tally = (Scan.ofSource options source).tally

theorem FileScan.IsScan.classes_eq
    {file : FileScan}
    (isScan : file.IsScan) :
    file.tally.classes = file.outlines.length := by
  obtain ⟨options, source, outlines, tally⟩ := isScan
  rw [outlines, tally]
  exact (Scan.reading_ofSource options source).classes

theorem FileScan.IsScan.blocks_eq
    {file : FileScan}
    (isScan : file.IsScan) :
    file.tally.blocks = file.tally.classes + file.tally.rejected := by
  obtain ⟨options, source, -, tally⟩ := isScan
  have reading := Scan.reading_ofSource options source
  rw [tally, reading.blocks]
  exact reading.candidates.symm

namespace Project

/-! ## Records -/

/-- A path, and the outcome of scanning the file there. -/
abbrev Record : Type :=
  Text × Except Failure FileScan

/-- The path and the message of a record that is a failure. -/
def failure? : Record → Option (Text × Text)
  | (_, .ok _) => none
  | (path, .error failure) => some (path, failure.message)

/-- The project of some records. -/
def ofRecords (records : List Record) : Project :=
  records.foldl (fun project (path, outcome) => project.record path outcome) {}

theorem foldl_record
    (project : Project)
    (records : List Record) :
    records.foldl (fun project (path, outcome) => project.record path outcome) project =
      { files := project.files ++ records.filterMap fun record => record.2.toOption
        failures := project.failures ++ records.filterMap failure? } := by
  induction records generalizing project with
  | nil => simp
  | cons first records hypothesis =>
    obtain ⟨path, outcome⟩ := first
    rw [List.foldl_cons, hypothesis]
    cases outcome with
    | ok file => simp [record, failure?, Except.toOption, List.filterMap_cons]
    | error failure => simp [record, failure?, Except.toOption]

/-- The files and the failures are those of the records, in order. -/
theorem ofRecords_eq
    (records : List Record) :
    ofRecords records =
      { files := records.filterMap fun record => record.2.toOption
        failures := records.filterMap failure? } := by
  rw [ofRecords, foldl_record]
  rfl

/-- Every record is a file or a failure. -/
theorem fileCount_ofRecords
    (records : List Record) :
    (ofRecords records).fileCount = records.length := by
  rw [ofRecords_eq, fileCount]
  induction records with
  | nil => rfl
  | cons first records hypothesis =>
    obtain ⟨path, outcome⟩ := first
    cases outcome with
    | ok file =>
      simp only [Except.toOption, failure?, List.filterMap_cons, List.length_cons] at hypothesis ⊢
      omega
    | error failure =>
      simp only [Except.toOption, failure?, List.filterMap_cons, List.length_cons] at hypothesis ⊢
      omega

theorem exists_record_of_mem_files
    {records : List Record}
    {file : FileScan}
    (member : file ∈ (ofRecords records).files) :
    ∃ path, (path, .ok file) ∈ records := by
  rw [ofRecords_eq] at member
  obtain ⟨⟨path, outcome⟩, isRecord, succeeded⟩ := List.mem_filterMap.mp member
  cases outcome with
  | ok scanned =>
    obtain rfl : scanned = file := by simpa [Except.toOption] using succeeded
    exact ⟨path, isRecord⟩
  | error failure => simp [Except.toOption] at succeeded

/-! ## Tallies of projects -/

theorem field_foldl_add
    {field : Tally → Nat}
    (isField : field ∈ Tally.fields)
    (start : Tally)
    (files : List FileScan) :
    field (files.foldl (fun total file => total + file.tally) start) =
      field start + (files.map fun file => field file.tally).sum := by
  induction files generalizing start with
  | nil => rfl
  | cons file files hypothesis =>
    rw [List.foldl_cons, hypothesis, Tally.field_add isField, List.map_cons, List.sum_cons,
      Nat.add_assoc]

/-- Each count of a project is the sum of the counts of its files. -/
theorem field_tally
    {field : Tally → Nat}
    (isField : field ∈ Tally.fields)
    (project : Project) :
    field project.tally = (project.files.map fun file => field file.tally).sum := by
  rw [tally, field_foldl_add isField, Tally.field_zero isField, Nat.zero_add]

/-- The order of the files does not matter. -/
theorem tally_eq_of_perm
    {left right : Project}
    (reordered : left.files.Perm right.files) :
    left.tally = right.tally :=
  reordered.foldl_eq' (fun _ _ _ _ total => Tally.add_right_comm total _ _) {}

theorem classCount_eq_sum
    (project : Project) :
    project.classCount = (project.files.map fun file => file.outlines.length).sum :=
  List.length_flatMap

theorem tally_classes
    {project : Project}
    (areScans : ∀ file ∈ project.files, file.IsScan) :
    project.tally.classes = project.classCount := by
  have isField : Tally.classes ∈ Tally.fields := by simp [Tally.fields]
  rw [field_tally isField, classCount_eq_sum]
  congr 1
  exact List.map_congr_left fun file member => (areScans file member).classes_eq

theorem tally_blocks
    {project : Project}
    (areScans : ∀ file ∈ project.files, file.IsScan) :
    project.tally.blocks = project.tally.candidates := by
  have blocks : Tally.blocks ∈ Tally.fields := by simp [Tally.fields]
  have classes : Tally.classes ∈ Tally.fields := by simp [Tally.fields]
  have rejected : Tally.rejected ∈ Tally.fields := by simp [Tally.fields]
  rw [Tally.candidates, field_tally blocks, field_tally classes, field_tally rejected,
    ← List.sum_map_add]
  congr 1
  exact List.map_congr_left fun file member => (areScans file member).blocks_eq

/--
The counts of the scan of a source, of a session and of a project of scans are those of what they
hold.  The scan counts every block once as found, and once as outlined or as rejected.  A session
holds the outlines that were added, in order.  A project adds up the counts of its files in any
order.
-/
theorem tally_matches_holdings
    (records : List Record) :
    (∀ options source,
      (Scan.ofSource options source).tally.blocks =
          (Block.ofText (Mask.visible source)).length ∧
        (Scan.ofSource options source).tally.blocks =
            (Scan.ofSource options source).tally.classes +
              (Scan.ofSource options source).tally.rejected ∧
          (Scan.ofSource options source).Counted) ∧
      (∀ additions,
        (Scan.session additions).Counted ∧
          (Scan.session additions).outlines = additions.flatMap Scan.Addition.outlines) ∧
        (∀ field ∈ Tally.fields,
          field (ofRecords records).tally =
            ((ofRecords records).files.map fun file => field file.tally).sum) ∧
          (∀ project : Project,
            project.files.Perm (ofRecords records).files →
              project.tally = (ofRecords records).tally) ∧
            ((∀ path file, (path, .ok file) ∈ records → file.IsScan) →
              (ofRecords records).tally.classes = (ofRecords records).classCount ∧
                (ofRecords records).tally.blocks = (ofRecords records).tally.candidates) := by
  refine ⟨fun options source => ?_, fun additions => ?_, fun field isField => field_tally isField _,
    fun project reordered => tally_eq_of_perm reordered, fun areScans => ?_⟩
  · have reading := Scan.reading_ofSource options source
    exact ⟨reading.blocks, reading.blocks.trans reading.candidates.symm, reading.toCounted⟩
  · exact ⟨Scan.counted_session additions, Scan.outlines_session additions⟩
  · have filesAreScans : ∀ file ∈ (ofRecords records).files, file.IsScan := by
      intro file member
      obtain ⟨path, isRecord⟩ := exists_record_of_mem_files member
      exact areScans path file isRecord
    exact ⟨tally_classes filesAreScans, tally_blocks filesAreScans⟩

/-- A file with a malformed name, one that cannot be read, and the first file once more. -/
theorem tally_matches_holdings_malformed :
    let file := FileScan.ofText {} "a.h".toList
      "class A \x7b int x; \x7d;\nclass B> \x7b \x7d;\n".toList
    let records : List Record :=
      [(file.path, .ok file), ("b.h".toList, .error (.unreadable "b.h".toList .absent)),
        (file.path, .ok file)]
    (∀ path file, (path, .ok file) ∈ records → file.IsScan) ∧
      (ofRecords records).files = [file, file] ∧
        (ofRecords records).tally =
            { blocks := 4, classes := 2, rejected := 2, members := 2, unresolved := 0 } ∧
          (ofRecords records).tally.blocks = (ofRecords records).tally.candidates := by
  intro file records
  have areScans : ∀ path scanned, (path, .ok scanned) ∈ records → scanned.IsScan := by
    intro path scanned isRecord
    obtain ⟨-, rfl⟩ : path = file.path ∧ scanned = file := by
      simpa [records, or_self] using isRecord
    exact ⟨{}, "class A \x7b int x; \x7d;\nclass B> \x7b \x7d;\n".toList, rfl, rfl⟩
  obtain ⟨-, -, -, -, balanced⟩ := tally_matches_holdings records
  exact ⟨areScans, rfl, by decide, (balanced areScans).2⟩

end Project

end ClassOutline
