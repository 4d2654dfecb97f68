import ClassOutline.Json.Code
import ClassOutline.Json.Scan
import ClassOutline.Proofs.Json.Reading
/-!
# Nothing is lost in JSON

Every value that is stored is read back as it was, but for the time of a scan.  That is read back in
whole milliseconds, and only if they fit into 64 bits.  What is read back is written as before.

A style of which some keys are taken out has the values of the standard style there.
-/

namespace ClassOutline

open Json (Lossless)

/-! ## Outlines -/

theorem Access.lossless : Lossless toJson ofJson? :=
  .of_readBack fun access =>
    Json.readWord_text (by decide) (show access ∈ all by cases access <;> decide)

theorem Base.lossless : Lossless toJson ofJson? :=
  .of_readBack fun base => by
    have read : ofJson? base.toJson =
        (Access.ofJson? base.access.toJson).bind fun access => some { base with access } := rfl
    rw [read, Access.lossless.readBack]
    rfl

theorem DataMember.lossless : Lossless toJson ofJson? :=
  .of_readBack fun _ => rfl

theorem Outline.lossless : Lossless toJson ofJson? :=
  .of_readBack fun outline => by
    have read : ofJson? outline.toJson =
        (Json.readList Base.ofJson? (Json.list Base.toJson outline.bases)).bind fun bases =>
          (Json.readList DataMember.ofJson? (Json.list DataMember.toJson outline.members)).bind
            fun members => some { outline with bases, members } := rfl
    rw [read, Base.lossless.readList_list, DataMember.lossless.readList_list]
    rfl

/-! ## Generated code -/

theorem Placement.lossless : Lossless toJson ofJson? :=
  .of_readBack fun placement => by cases placement <;> rfl

namespace Style

/-- The style with the values of the standard style under some keys. -/
def standardAt (keys : List String) (style : Style) : Style where
  placement := if "placement" ∈ keys then ({} : Style).placement else style.placement
  indent := if "indent" ∈ keys then ({} : Style).indent else style.indent

theorem ofJson?_without
    (removed : List String)
    (style : Style) :
    ofJson? (style.toJson.without removed) = some (style.standardAt removed) := by
  have read : ofJson? (style.toJson.without removed) =
      ((style.toJson.without removed).readEntryD "placement" Placement.ofJson?
          ({} : Style).placement).bind fun placement =>
        ((style.toJson.without removed).readEntryD "indent" Json.readText ({} : Style).indent).bind
          fun indent => some { placement, indent } := rfl
  have placement : style.toJson.readEntryD "placement" Placement.ofJson? ({} : Style).placement =
      Placement.ofJson? style.placement.toJson := rfl
  have indent : style.toJson.readEntryD "indent" Json.readText ({} : Style).indent =
      some style.indent := rfl
  rw [read, Json.readEntryD_without, Json.readEntryD_without, placement, indent,
    Placement.lossless.readBack, standardAt]
  split <;> split <;> rfl

theorem lossless : Lossless toJson ofJson? :=
  .of_readBack (ofJson?_without [])

end Style

theorem Action.lossless : Lossless toJson ofJson? :=
  .of_readBack fun action =>
    Json.readWord_text (by decide) (show action ∈ menu by cases action <;> decide)

theorem Coverage.lossless : Lossless toJson ofJson? :=
  .of_readBack fun coverage => by
    cases coverage with
    | all => rfl
    | named names =>
      have read : ofJson? (toJson (.named names)) =
          (Json.readList Json.readText (Json.list Json.text names)).bind fun names =>
            some (.named names) := rfl
      have texts : Lossless Json.text Json.readText := .of_readBack fun _ => rfl
      rw [read, texts.readList_list]
      rfl

theorem GeneratedCode.lossless : Lossless toJson ofJson? :=
  .of_readBack fun code => by cases code <;> rfl

theorem Insertion.lossless : Lossless toJson ofJson? :=
  .of_readBack fun _ => rfl

/-! ## Scans -/

theorem Tally.lossless : Lossless toJson ofJson? :=
  .of_readBack fun _ => rfl

theorem ScanOptions.lossless : Lossless toJson ofJson? :=
  .of_readBack fun options => by
    have read : ofJson? options.toJson =
        (Json.readOptional Json.readNatural
          ((options.workers.map Json.natural).getD .null)).bind fun workers =>
            some { options with workers } := rfl
    have naturals : Lossless Json.natural Json.readNatural := .of_readBack fun _ => rfl
    rw [read, naturals.readOptional_getD (fun _ => by simp [Json.natural])]
    rfl

namespace FileScan

/-- The scan with its time cut to whole milliseconds. -/
def inMilliseconds (scan : FileScan) : FileScan :=
  { scan with elapsed := scan.elapsed / millisecond * millisecond }

/-- The scan as it is read back. -/
def stored (scan : FileScan) : FileScan :=
  { scan with elapsed := scan.milliseconds * millisecond }

theorem ofJson?_toJson (scan : FileScan) : ofJson? scan.toJson = some scan.stored := by
  have read : ofJson? scan.toJson =
      (Json.readList Outline.ofJson? (Json.list Outline.toJson scan.outlines)).bind fun outlines =>
        some { scan.stored with outlines } := rfl
  rw [read, Outline.lossless.readList_list]
  rfl

theorem toJson_stored (scan : FileScan) : scan.stored.toJson = scan.toJson := by
  have sameTime : scan.stored.milliseconds = scan.milliseconds := by
    have isWhole : scan.stored.elapsed / millisecond = scan.milliseconds :=
      Nat.mul_div_cancel _ (by decide)
    rw [milliseconds, isWhole, milliseconds, Nat.mod_mod]
  rw [toJson, sameTime]
  rfl

/-- Whole milliseconds are kept if they fit into 64 bits. -/
theorem stored_eq_iff (scan : FileScan) :
    scan.stored = scan.inMilliseconds ↔ scan.elapsed < timeLimit * millisecond := by
  have positive : 0 < millisecond := by decide
  calc
    scan.stored = scan.inMilliseconds ↔
        scan.milliseconds * millisecond = scan.elapsed / millisecond * millisecond := by
      constructor
      · exact congrArg elapsed
      · intro same
        rw [stored, same]
        rfl
    _ ↔ scan.milliseconds = scan.elapsed / millisecond := Nat.mul_left_inj (Nat.ne_of_gt positive)
    _ ↔ scan.elapsed / millisecond < timeLimit := Nat.mod_eq_iff_lt (by decide)
    _ ↔ scan.elapsed < timeLimit * millisecond := Nat.div_lt_iff_lt_mul positive

end FileScan

namespace Project

/-- The project with the times of its files cut to whole milliseconds. -/
def inMilliseconds (project : Project) : Project :=
  { project with files := project.files.map FileScan.inMilliseconds }

/-- The project as it is read back. -/
def stored (project : Project) : Project :=
  { project with files := project.files.map FileScan.stored }

theorem ofJson?_toJson (project : Project) : ofJson? project.toJson = some project.stored := by
  have pairs : Lossless failureToJson (Json.readPair Json.readText Json.readText) :=
    .of_readBack fun _ => rfl
  have read : ofJson? project.toJson =
      (Json.readList FileScan.ofJson? (Json.list FileScan.toJson project.files)).bind fun files =>
        (Json.readList (Json.readPair Json.readText Json.readText)
          (Json.list failureToJson project.failures)).bind fun failures =>
            some { files, failures } := rfl
  rw [read, Json.readList_list FileScan.ofJson?_toJson, pairs.readList_list]
  rfl

theorem toJson_stored (project : Project) : project.stored.toJson = project.toJson := by
  have sameFiles : Json.list FileScan.toJson project.stored.files =
      Json.list FileScan.toJson project.files := by
    rw [Json.list, stored, List.map_map]
    exact congrArg Json.array (List.map_congr_left fun file _ => file.toJson_stored)
  rw [toJson, sameFiles]
  rfl

theorem stored_eq_iff (project : Project) :
    project.stored = project.inMilliseconds ↔
      ∀ file ∈ project.files, file.elapsed < FileScan.timeLimit * FileScan.millisecond := by
  have sameFiles : project.stored = project.inMilliseconds ↔
      project.files.map FileScan.stored = project.files.map FileScan.inMilliseconds := by
    constructor
    · exact congrArg files
    · intro same
      rw [stored, same]
      rfl
  rw [sameFiles, List.map_inj_left]
  exact forall₂_congr fun file _ => file.stored_eq_iff

end Project

/--
Outlines, bases, members, tallies, options, styles, actions, coverages, code and insertions are read
back from what is written for them, and different ones are written differently.  A scan of a file or
of a project is read back with its times cut to whole milliseconds, exactly if these fit into 64
bits; what is read back is in any case written as before.  A style without some keys has the values
of the standard style there.
-/
theorem Json.storedForms_lossless :
    (Lossless Outline.toJson Outline.ofJson? ∧ Lossless Base.toJson Base.ofJson? ∧
      Lossless DataMember.toJson DataMember.ofJson? ∧ Lossless Tally.toJson Tally.ofJson? ∧
      Lossless ScanOptions.toJson ScanOptions.ofJson? ∧ Lossless Style.toJson Style.ofJson? ∧
      Lossless Action.toJson Action.ofJson? ∧ Lossless Coverage.toJson Coverage.ofJson? ∧
      Lossless GeneratedCode.toJson GeneratedCode.ofJson? ∧
      Lossless Insertion.toJson Insertion.ofJson?) ∧
      (∀ scan : FileScan,
        (FileScan.ofJson? scan.toJson = some scan.inMilliseconds ↔
          scan.elapsed < FileScan.timeLimit * FileScan.millisecond) ∧
          (FileScan.ofJson? scan.toJson).map FileScan.toJson = some scan.toJson) ∧
      (∀ project : Project,
        (Project.ofJson? project.toJson = some project.inMilliseconds ↔
          ∀ file ∈ project.files, file.elapsed < FileScan.timeLimit * FileScan.millisecond) ∧
          (Project.ofJson? project.toJson).map Project.toJson = some project.toJson) ∧
      ∀ (style : Style) (removed : List String),
        Style.ofJson? (style.toJson.without removed) = some (style.standardAt removed) := by
  refine
    ⟨⟨Outline.lossless, Base.lossless, DataMember.lossless, Tally.lossless, ScanOptions.lossless,
      Style.lossless, Action.lossless, Coverage.lossless, GeneratedCode.lossless,
      Insertion.lossless⟩, fun scan => ?_, fun project => ?_, fun style removed =>
      style.ofJson?_without removed⟩
  · rw [scan.ofJson?_toJson, Option.some_inj, Option.map_some, scan.toJson_stored]
    exact ⟨scan.stored_eq_iff, rfl⟩
  · rw [project.ofJson?_toJson, Option.some_inj, Option.map_some, project.toJson_stored]
    exact ⟨project.stored_eq_iff, rfl⟩

end ClassOutline
