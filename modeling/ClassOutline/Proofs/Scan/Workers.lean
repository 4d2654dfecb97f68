import ClassOutline.Proofs.Scan.Records
/-!
# Files scanned by workers

Several workers finish the files of a project in an order that nobody controls, and each of them
takes its time.  The outcome of a path goes into the slot of its position, so that the outcomes can
be recorded in the order of the paths once all slots are filled.  However the workers come along,
the project is the one that scanning one file after the other gives, up to the times.

Such a project loses nothing and adds nothing: every path is among the files or among the failures,
once for each time it was asked for, and in the order of the paths.
-/

namespace ClassOutline

/-! ## One file -/

namespace Entry

/-- The number of bytes that the system states for an entry. -/
def size : Entry → Nat
  | .directory size => size
  | .file content => content.length

/-- The text of an entry, or why there is none. -/
def read : Entry → Except ReadFailure Text
  | .directory _ => .error .directory
  | .file content =>
    match FileScan.decode? content with
    | some text => .ok text
    | none => .error .notText

end Entry

namespace FileScan

variable (options : ScanOptions) (system : FileSystem) (path : Text)

/-- The entry at a path is looked for first, then its size is looked at, and then it is read. -/
theorem ofPath_eq :
    ofPath options system path =
      match system.entry path with
      | .error cause => .error (.unreadable path cause)
      | .ok entry =>
        if options.sizeLimit < entry.size then .error (.tooLarge path entry.size)
        else
          match entry.read with
          | .error cause => .error (.unreadable path cause)
          | .ok text => .ok (ofText options path text) := by
  rw [ofPath]
  cases system.entry path with
  | error cause => rfl
  | ok entry =>
    cases entry with
    | directory size => rfl
    | file content =>
      simp only [Entry.size, Entry.read]
      cases decode? content <;> rfl

/-- A file is too large whatever it holds, and nothing else is too large. -/
theorem ofPath_eq_tooLarge_iff (size : Nat) :
    ofPath options system path = .error (.tooLarge path size) ↔
      ∃ entry, system.entry path = .ok entry ∧ entry.size = size ∧ options.sizeLimit < size := by
  rw [ofPath_eq]
  cases system.entry path with
  | error cause => simp
  | ok entry =>
    by_cases exceeds : options.sizeLimit < entry.size
    · simp only [exceeds, if_true, Except.error.injEq, Failure.tooLarge.injEq, true_and,
        Except.ok.injEq, exists_eq_left']
      exact ⟨fun same => ⟨same, same ▸ exceeds⟩, And.left⟩
    · simp only [exceeds, if_false, Except.ok.injEq, exists_eq_left']
      constructor
      · cases entry.read <;> simp
      · rintro ⟨rfl, tooLarge⟩
        exact absurd tooLarge exceeds

/-- Whether and how files are shared among workers makes no difference to a single file. -/
theorem ofPath_parallel
    (parallel : Bool)
    (workers : Option Nat) :
    ofPath { options with parallel, workers } system path = ofPath options system path := rfl

/-! ## Times -/

/-- The scan, if it took some time. -/
def taking (elapsed : Nat) (file : FileScan) : FileScan :=
  { file with elapsed }

/-- The scan without its time. -/
def untimed (file : FileScan) : FileScan :=
  file.taking 0

theorem map_untimed_ofPath :
    (ofPath options system path).map untimed = ofPath options system path := by
  rw [ofPath_eq]
  cases system.entry path with
  | error cause => rfl
  | ok entry =>
    by_cases exceeds : options.sizeLimit < entry.size
    · simp [exceeds, Except.map]
    · simp only [exceeds, if_false]
      cases entry.read <;> rfl

theorem map_untimed_map_taking
    (elapsed : Nat)
    (outcome : Except Failure FileScan) :
    (outcome.map (taking elapsed)).map untimed = outcome.map untimed := by
  cases outcome <;> rfl

end FileScan

namespace Project

/-- The project without the times of its files. -/
def untimed (project : Project) : Project :=
  { project with files := project.files.map FileScan.untimed }

/-! ## Slots -/

/-- A worker finishes the path at a position, some time after it began. -/
structure Completion where
  /-- The position of the path. -/
  position : Nat
  /-- The time that the scan took. -/
  elapsed : Nat

/-- The completions are one for each position, in any order. -/
def IsSchedule (completions : List Completion) (count : Nat) : Prop :=
  (completions.map Completion.position).Perm (List.range count)

variable (options : ScanOptions) (system : FileSystem) (paths : List Text)

/-- The slots of the paths after one more completion. -/
def fill
    (slots : List (Option (Except Failure FileScan)))
    (completion : Completion) :
    List (Option (Except Failure FileScan)) :=
  slots.set completion.position
    (paths[completion.position]?.map fun path =>
      (FileScan.ofPath options system path).map (FileScan.taking completion.elapsed))

/-- The slots of the paths after all completions. -/
def slotsAfter (completions : List Completion) : List (Option (Except Failure FileScan)) :=
  completions.foldl (fill options system paths) (paths.map fun _ => none)

/-- The project of workers that finish in a given order, once all slots are filled. -/
def byWorkers? (completions : List Completion) : Option Project :=
  ((slotsAfter options system paths completions).mapM id).map fun outcomes =>
    ofRecords (paths.zip outcomes)

variable {options system paths}

/-- The slots of the paths that are done hold their outcomes, up to the times. -/
def Holds (options : ScanOptions) (system : FileSystem) (paths : List Text) (done : List Nat)
    (slots : List (Option (Except Failure FileScan))) : Prop :=
  ∀ position : Nat,
    slots[position]?.map (Option.map fun outcome => outcome.map FileScan.untimed) =
      paths[position]?.map fun path =>
        if position ∈ done then some (FileScan.ofPath options system path) else none

theorem Holds.fill
    {done : List Nat}
    {slots : List (Option (Except Failure FileScan))}
    (holds : Holds options system paths done slots)
    (completion : Completion) :
    Holds options system paths (completion.position :: done)
      (Project.fill options system paths slots completion) := by
  intro position
  have before := holds position
  rw [Project.fill, List.getElem?_set]
  by_cases here : completion.position = position
  · subst here
    cases atPath : paths[completion.position]? with
    | none =>
      rw [atPath, Option.map_none, Option.map_eq_none_iff] at before
      have outside := List.getElem?_eq_none_iff.mp before
      simp [Nat.not_lt.mpr outside]
    | some path =>
      rw [atPath, Option.map_some] at before
      have inRange : completion.position < slots.length := by
        refine Nat.lt_of_not_le fun outside => ?_
        rw [List.getElem?_eq_none_iff.mpr outside] at before
        contradiction
      simp [inRange, FileScan.map_untimed_map_taking, FileScan.map_untimed_ofPath]
  · have elsewhere : position ∈ completion.position :: done ↔ position ∈ done := by
      simp [Ne.symm here]
    rw [if_neg here, before]
    simp only [elsewhere]

theorem Holds.foldl_fill
    {done : List Nat}
    {slots : List (Option (Except Failure FileScan))}
    (holds : Holds options system paths done slots)
    (completions : List Completion) :
    Holds options system paths ((completions.map Completion.position).reverse ++ done)
      (completions.foldl (Project.fill options system paths) slots) := by
  induction completions generalizing done slots with
  | nil => exact holds
  | cons completion completions hypothesis =>
    have later := hypothesis (holds.fill completion)
    simpa using later

theorem holds_slotsAfter (completions : List Completion) :
    Holds options system paths (completions.map Completion.position).reverse
      (slotsAfter options system paths completions) := by
  have empty : Holds options system paths [] (paths.map fun _ => none) := by
    intro position
    rw [List.getElem?_map]
    cases paths[position]? <;> rfl
  have all := empty.foldl_fill completions
  rwa [List.append_nil] at all

/-- When all workers are done, every slot is filled. -/
theorem slotsAfter_schedule
    {completions : List Completion}
    (isSchedule : IsSchedule completions paths.length) :
    (slotsAfter options system paths completions).map
        (Option.map fun outcome => outcome.map FileScan.untimed) =
      (paths.map fun path => FileScan.ofPath options system path).map some := by
  refine List.ext_getElem? fun position => ?_
  rw [List.map_map, List.getElem?_map, List.getElem?_map, holds_slotsAfter completions position]
  cases atPath : paths[position]? with
  | none => rfl
  | some path =>
    have inRange : position < paths.length := (List.getElem?_eq_some_iff.mp atPath).1
    have isDone : position ∈ (completions.map Completion.position).reverse := by
      rw [List.mem_reverse, isSchedule.mem_iff]
      exact List.mem_range.mpr inRange
    simp [isDone]

/-! ## Projects -/

/-- Slots that are all filled give their contents. -/
theorem exists_mapM_id
    {Content Seen : Type}
    {look : Content → Seen}
    {slots : List (Option Content)}
    {seen : List Seen}
    (filled : slots.map (Option.map look) = seen.map some) :
    ∃ contents, slots.mapM id = some contents ∧ contents.map look = seen := by
  induction slots generalizing seen with
  | nil =>
    obtain rfl : seen = [] := by simpa using filled.symm
    exact ⟨[], rfl, rfl⟩
  | cons slot slots hypothesis =>
    cases seen with
    | nil => simp at filled
    | cons first seen =>
      obtain ⟨content, rfl⟩ : ∃ content, slot = some content := by
        cases slot with
        | none => simp at filled
        | some content => exact ⟨content, rfl⟩
      simp only [List.map_cons, Option.map_some, List.cons.injEq, Option.some.injEq] at filled
      obtain ⟨rfl, later⟩ := filled
      obtain ⟨contents, collected, rfl⟩ := hypothesis later
      refine ⟨content :: contents, ?_, rfl⟩
      rw [List.mapM_cons, collected]
      rfl

/-- Times do not matter for where an outcome is recorded. -/
theorem untimed_ofRecords (records : List Record) :
    (ofRecords records).untimed =
      ofRecords (records.map fun record => (record.1, record.2.map FileScan.untimed)) := by
  have files (record : Record) :
      Option.map FileScan.untimed record.2.toOption =
        (record.2.map FileScan.untimed).toOption := by
    cases record.2 <;> rfl
  have failures (record : Record) :
      failure? (record.1, record.2.map FileScan.untimed) = failure? record := by
    obtain ⟨path, outcome⟩ := record
    cases outcome <;> rfl
  rw [ofRecords_eq, ofRecords_eq, untimed]
  simp only [List.map_filterMap, List.filterMap_map, Function.comp_def, files, failures]

theorem inSequence_eq :
    inSequence options system paths =
      ofRecords (paths.map fun path => (path, FileScan.ofPath options system path)) := by
  rw [inSequence, ofRecords, List.foldl_map]

theorem files_inSequence :
    (inSequence options system paths).files =
      paths.filterMap fun path => (FileScan.ofPath options system path).toOption := by
  rw [inSequence_eq, ofRecords_eq]
  exact List.filterMap_map

theorem failures_inSequence :
    (inSequence options system paths).failures =
      paths.filterMap fun path => failure? (path, FileScan.ofPath options system path) := by
  rw [inSequence_eq, ofRecords_eq]
  exact List.filterMap_map

theorem fileCount_inSequence :
    (inSequence options system paths).fileCount = paths.length := by
  rw [inSequence_eq, fileCount_ofRecords, List.length_map]

theorem inParallel_eq :
    inParallel options system paths = inSequence options system paths :=
  inSequence_eq.symm

theorem exists_byWorkers?
    {completions : List Completion}
    (isSchedule : IsSchedule completions paths.length) :
    ∃ project,
      byWorkers? options system paths completions = some project ∧
        project.untimed = inSequence options system paths := by
  obtain ⟨outcomes, collected, seen⟩ := exists_mapM_id (slotsAfter_schedule isSchedule)
  refine ⟨ofRecords (paths.zip outcomes), ?_, ?_⟩
  · rw [byWorkers?, collected]
    rfl
  · rw [untimed_ofRecords, inSequence_eq, List.map_prod_left_eq_zip, ← seen, List.zip_map_right]
    rfl

/--
Scanning files gives the same project in sequence and in parallel, with any number of workers and
also if workers are refused.  The order in which workers finish makes no difference but for the
times.  The files and the failures of the project are the outcomes of all paths, each in the order
of the paths; and a file is too large if its size exceeds the limit, whatever it holds.
-/
theorem ofPaths_lossless
    (options : ScanOptions)
    (system : FileSystem)
    (paths : List Text) :
    (∀ parallel workers hasWorkers,
      ofPaths { options with parallel, workers } hasWorkers system paths =
        inSequence options system paths) ∧
      (∀ completions, IsSchedule completions paths.length →
        ∃ project,
          byWorkers? options system paths completions = some project ∧
            project.untimed = inSequence options system paths) ∧
        (inSequence options system paths).files =
            (paths.filterMap fun path => (FileScan.ofPath options system path).toOption) ∧
          (inSequence options system paths).failures =
              (paths.filterMap fun path =>
                failure? (path, FileScan.ofPath options system path)) ∧
            (inSequence options system paths).fileCount = paths.length ∧
              ∀ path size,
                FileScan.ofPath options system path = .error (.tooLarge path size) ↔
                  ∃ entry,
                    system.entry path = .ok entry ∧
                      entry.size = size ∧ options.sizeLimit < size := by
  refine ⟨fun parallel workers hasWorkers => ?_, fun completions => exists_byWorkers?,
    files_inSequence, failures_inSequence, fileCount_inSequence,
    FileScan.ofPath_eq_tooLarge_iff options system⟩
  have sameFiles : inSequence { options with parallel, workers } system paths =
      inSequence options system paths := by
    simp only [inSequence, FileScan.ofPath_parallel]
  rw [ofPaths]
  split
  · rw [inParallel_eq, sameFiles]
  · exact sameFiles

/-- A missing file, a large one that is no text, and a class, finished from last to first. -/
theorem ofPaths_lossless_backwards :
    let content := "class A \x7b\x7d;".toUTF8.data.toList
    let system : FileSystem :=
      { entry := fun path =>
          if path = "a.h".toList then .ok (.file content)
          else if path = "b.h".toList then .ok (.file (List.replicate 12 255))
          else .error .absent }
    let options : ScanOptions := { sizeLimit := 11 }
    let paths := ["c.h".toList, "b.h".toList, "a.h".toList]
    let completions : List Completion := [⟨2, 30⟩, ⟨1, 10⟩, ⟨0, 20⟩]
    IsSchedule completions paths.length ∧
      FileScan.decode? (List.replicate 12 255) = none ∧
        FileScan.ofPath options system "b.h".toList = .error (.tooLarge "b.h".toList 12) ∧
          (inSequence options system paths).files =
              [FileScan.ofText options "a.h".toList "class A \x7b\x7d;".toList] ∧
            (inSequence options system paths).failures.map Prod.fst =
                ["c.h".toList, "b.h".toList] ∧
              ∃ project,
                byWorkers? options system paths completions = some project ∧
                  project.untimed = inSequence options system paths := by
  intro content system options paths completions
  have isSchedule : IsSchedule completions paths.length := by
    unfold IsSchedule
    decide
  obtain ⟨-, byWorkers, -, -, -, tooLarge⟩ := ofPaths_lossless options system paths
  exact
    ⟨isSchedule, by decide, (tooLarge _ 12).mpr ⟨_, rfl, rfl, by decide⟩, by decide, by decide,
      byWorkers completions isSchedule⟩

end Project

end ClassOutline
