import DepClause.Proofs.Command.FileLines
import DepClause.Proofs.Command.SortCheck
import DepClause.Proofs.DependencyTags
import DepClause.Proofs.Metadata
import DepClause.Proofs.Settings.Layers

/-!
# What the converting commands print

The commands that convert requirements, encode versions and list tags read first and print last.
What is read is a function of the disk on which the command starts, and so is what is printed; where
that function fails the command has not printed anything yet.
-/

namespace DepClause.Command

variable {store : SettingsStore}

/-! ## Reading and printing -/

namespace Run

section
variable {α β : Type} {m : Run α} {next : α → Run β} {f g : Disk → Except Fault α}

/-- The computation gives what a function of the disk gives, and leaves nothing but log entries. -/
def Reads (m : Run α) (f : Disk → Except Fault α) : Prop :=
  ∀ s, ∃ output, m.run.run s = (f s.disk, { s with output })

/-- The computation prints what a function of the disk gives, and nothing where that fails. -/
def Publishes (m : Run Unit) (f : Disk → Except Fault (List Printed)) : Prop :=
  ∀ s, ∃ output, m.run.run s = match f s.disk with
    | .ok pieces => (.ok (), { s with output, printed := s.printed ++ pieces })
    | .error fault => (.error fault, { s with output })

theorem Reads.congr (h : m.Reads f) (same : ∀ d, f d = g d) : m.Reads g := by
  rw [← funext same]
  exact h

theorem Reads.bind {h : α → Disk → Except Fault β} (hm : m.Reads f)
    (hn : ∀ a, (next a).Reads (h a)) : Reads (m >>= next) fun d => f d >>= (h · d) := by
  intro s
  obtain ⟨output, first⟩ := hm s
  rw [run_bind, first]
  beta_reduce
  cases f s.disk with
  | error fault => exact ⟨output, rfl⟩
  | ok a => exact hn a { s with output }

theorem Reads.publish {print : α → Run Unit} {h : α → Disk → Except Fault (List Printed)}
    (hm : m.Reads f) (hn : ∀ a, (print a).Publishes (h a)) :
    Publishes (m >>= print) fun d => f d >>= (h · d) := by
  intro s
  obtain ⟨output, first⟩ := hm s
  rw [run_bind, first]
  beta_reduce
  cases f s.disk with
  | error fault => exact ⟨output, rfl⟩
  | ok a => exact hn a { s with output }

theorem reads_pure (a : α) : Reads (pure a) fun _ => .ok a := fun s => ⟨s.output, rfl⟩

theorem reads_ofExcept (r : Except Fault α) : (ofExcept r).Reads fun _ => r := by
  intro s
  cases r <;> exact ⟨s.output, rfl⟩

theorem reads_check (r : Except Failure α) : (check r).Reads fun _ => r.mapError .refused :=
  reads_ofExcept _

theorem reads_read (f : Disk → Except Fault α) : (read f).Reads f :=
  fun s => ⟨s.output, run_read f s⟩

theorem reads_debug (message : String) (fields : Table Json) :
    (debug message fields).Reads fun _ => .ok () := fun _ => ⟨_, rfl⟩

theorem reads_checkLogged (r : Logged Failure α) :
    (checkLogged r).Reads fun _ => r.result.mapError .refused := by
  have logged : (log r.entries).Reads fun _ => .ok () := fun _ => ⟨_, rfl⟩
  exact logged.bind fun _ => reads_check r.result

theorem Publishes.afterDebug {print : Run Unit} {h : Disk → Except Fault (List Printed)}
    (hp : print.Publishes h) (message : String) (fields : Table Json) :
    Publishes (debug message fields >>= fun _ => print) h :=
  (reads_debug message fields).publish fun _ => hp

theorem publishes_print (p : Printed) : (print p).Publishes fun _ => .ok [p] :=
  fun s => ⟨s.output, rfl⟩

theorem publishes_lines (texts : List String) :
    (lines texts).Publishes fun _ => .ok (texts.map .line) := by
  intro s
  refine ⟨s.output, ?_⟩
  induction texts generalizing s with
  | nil =>
    change (Except.ok (), s) = (Except.ok (), { s with printed := s.printed ++ [] })
    rw [List.append_nil]
  | cons text texts ih =>
    change (lines texts).run.run { s with printed := s.printed ++ [.line text] } = _
    rw [ih]
    simp only [List.map_cons, List.append_assoc, List.singleton_append]

end

end Run

/-! ## What a command reads -/

section
variable (store : SettingsStore) (o : ConversionOptions) (d : Disk)

/-- The settings of a command with the options of a conversion. -/
def settingsOn : Except Fault Settings := do
  store.load d o.settingsFile (← o.layer)

/-- The requirements that a file lists; none without a path. -/
def listedOn (path : String) : Except Fault (List String) :=
  if path.isEmpty then .ok []
  else do (requirementsOfText (← d.readText path)).result.mapError .refused

def metadataOn (path : String) : Except Fault Metadata :=
  if Path.isDocument path then do (Metadata.ofJson (← d.readDocument path)).mapError .refused
  else do return Metadata.parseText (← d.readText path)

/-- The settings are the defaults with the layers of the settings file, of the further file and of
the options over them, in this order. -/
def Configures (settings : Settings) : Prop :=
  ∃ stored further given, store.storedLayers d = .ok stored ∧
    SettingsStore.furtherLayers d o.settingsFile = .ok further ∧ o.layer = .ok given ∧
    settings = (stored ++ further ++ [given]).foldl Settings.merge .defaults

/-- A file gives the requirements that its lines list; no path gives none. -/
def FileGives (path : String) (listed : List String) : Prop :=
  path = "" ∧ listed = [] ∨ path ≠ "" ∧ ∃ contents options,
    d.read path = .ok contents ∧ FileLists contents.toText listed options

/-- A file describes a package, in a document if its name says so or in header lines. -/
def FileDescribes (path : String) (metadata : Metadata) : Prop :=
  Path.isDocument path = true ∧ (∃ v, d.readDocument path = .ok v ∧
      Metadata.ofJson v = .ok metadata) ∨
    Path.isDocument path = false ∧ ∃ contents, d.read path = .ok contents ∧
      metadata = .described (Metadata.headerLines contents.toText)

end

section
variable {o : ConversionOptions} {d : Disk} {path : String}

theorem settingsOn_eq_ok_iff {settings : Settings} :
    settingsOn store o d = .ok settings ↔ Configures store o d settings := by
  simp only [settingsOn, SettingsStore.load_eq_foldl, bind_eq_ok_iff, Configures, pure, Except.pure,
    Except.ok.injEq]
  constructor
  · rintro ⟨given, options, stored, file, further, extra, rfl⟩
    exact ⟨stored, further, given, file, extra, options, rfl⟩
  · rintro ⟨stored, further, given, file, extra, options, rfl⟩
    exact ⟨given, options, stored, file, further, extra, rfl⟩

theorem readText_eq_ok_iff {text : String} :
    d.readText path = .ok text ↔
      ∃ contents, d.read path = .ok contents ∧ contents.toText = text := by
  rw [Disk.readText, mapError_eq_ok_iff, map_eq_ok_iff]

theorem listedOn_eq_ok_iff {listed : List String} :
    listedOn d path = .ok listed ↔ FileGives d path listed := by
  rw [listedOn, FileGives]
  split
  · rename_i none
    have empty : path = "" := by simpa using none
    simp [empty, eq_comm]
  · rename_i some
    have named : path ≠ "" := by simpa using some
    simp only [bind_eq_ok_iff, mapError_eq_ok_iff, readText_eq_ok_iff, requirementsOfText_eq_ok_iff]
    constructor
    · rintro ⟨_, ⟨contents, read, rfl⟩, options, lists⟩
      exact .inr ⟨named, contents, options, read, lists⟩
    · rintro (⟨empty, -⟩ | ⟨-, contents, options, read, lists⟩)
      · exact absurd empty named
      · exact ⟨_, ⟨contents, read, rfl⟩, options, lists⟩

theorem metadataOn_eq_ok_iff {metadata : Metadata} :
    metadataOn d path = .ok metadata ↔ FileDescribes d path metadata := by
  rw [metadataOn, FileDescribes]
  cases Path.isDocument path with
  | true => simp [bind_eq_ok_iff, mapError_eq_ok_iff]
  | false =>
    rw [if_neg Bool.false_ne_true, bind_eq_ok_iff]
    simp only [readText_eq_ok_iff, Metadata.parseText_eq, pure, Except.pure, Except.ok.injEq]
    constructor
    · rintro ⟨_, ⟨contents, read, rfl⟩, rfl⟩
      exact .inr ⟨trivial, contents, read, rfl⟩
    · rintro (⟨⟨⟩, -⟩ | ⟨-, contents, read, rfl⟩)
      exact ⟨_, ⟨contents, read, rfl⟩, rfl⟩

end

theorem reads_effectiveSettings (o : ConversionOptions) :
    (effectiveSettings store o).Reads (settingsOn store o) := by
  have steps := (Run.reads_ofExcept o.layer).bind fun layer =>
    (Run.reads_read fun d => store.load d o.settingsFile layer).bind fun settings =>
      (Run.reads_debug "설정 로드 완료"
        [("versionStyle", .text settings.versionStyle.text),
         ("packageTemplate", .text settings.packageTemplate)]).bind fun _ =>
        Run.reads_pure settings
  apply steps.congr
  intro d
  exact bind_congr fun layer => bind_pure _

theorem reads_fileRequirements (path : String) :
    (fileRequirements path).Reads fun d => listedOn d path := by
  unfold fileRequirements listedOn
  split
  · exact Run.reads_pure []
  · exact (Run.reads_read fun d => d.readText path).bind fun text =>
      Run.reads_checkLogged (requirementsOfText text)

theorem reads_loadMetadata (path : String) :
    (loadMetadata path).Reads fun d => metadataOn d path := by
  unfold loadMetadata metadataOn
  split
  · exact (Run.reads_read fun d => d.readDocument path).bind fun v =>
      Run.reads_check (Metadata.ofJson v)
  · exact (Run.reads_read fun d => d.readText path).bind fun text =>
      Run.reads_pure (Metadata.parseText text)

/-! ## What a command prints -/

/-- What is printed for the results of requirements, one clause to a line or all behind one tag. -/
def shown (tag : String) (results : List (Option String)) : List Printed :=
  if results.isEmpty then [.line "변환할 요구사항이 없습니다"]
  else
    let clauses := results.reduceOption
    (if tag.isEmpty then clauses else TagPolicy.tagLine tag clauses).map .line

section
variable (store : SettingsStore) (o : ConversionOptions)

/-- What is printed for the clauses of requirements. -/
def clausePieces (requirements : List String) (file extras tag : String) (d : Disk) :
    Except Fault (List Printed) := do
  let settings ← settingsOn store o d
  let converter ← settings.converter.mapError .refused
  let inputs := requirements ++ (← listedOn d file)
  if inputs.isEmpty then .ok [.line "변환할 요구사항이 없습니다"]
  else
    let clauses ← (converter.convert (Text.listItems extras) inputs).result.mapError .refused
    .ok ((if tag.isEmpty then clauses else TagPolicy.tagLine tag clauses).map .line)

/-- What is printed for the labels of versions. -/
def labelPieces (versions : List String) (strictLocal : Bool) : Except Fault (List Printed) := do
  let rows ← (versions.mapM (labelled strictLocal)).mapError .refused
  .ok [.table ["버전", "정규화", "RPM 레이블"] <|
    rows.map fun row => [row.literal, row.version.render, row.label]]

/-- What is printed for the tags of a package. -/
def tagPieces (path : String) (buildRequires : List String) (pythonVersion : String) (d : Disk) :
    Except Fault (List Printed) := do
  let settings ← settingsOn store o d
  let settings :=
    if pythonVersion.isEmpty then settings
    else { settings with pythonVersion := some pythonVersion }
  let metadata ← metadataOn d path
  let metadata := { metadata with buildRequires := metadata.buildRequires ++ buildRequires }
  let converter ← settings.converter.mapError .refused
  let lines ← (settings.tagPolicy.lines converter metadata).result.mapError .refused
  .ok (if lines.isEmpty then [.line "의존성이 없습니다"] else lines.map .line)

/-- The requirements of a command line and then those of a file are all converted. -/
def Converted (requirements : List String) (file extras : String) (d : Disk)
    (results : List (Option String)) : Prop :=
  ∃ settings converter listed, Configures store o d settings ∧ settings.converter = .ok converter ∧
    FileGives d file listed ∧
    List.Forall₂ (fun text result =>
      (converter.convertOne text (Text.listItems extras)).result = .ok result)
      (requirements ++ listed) results

/-- Each requirement of a package is converted: those for its build, and its own ones both for the
required and for the optional dependencies. -/
def PackageConverted (path : String) (buildRequires : List String) (d : Disk) : Prop :=
  ∃ settings converter metadata, Configures store o d settings ∧
    settings.converter = .ok converter ∧ FileDescribes d path metadata ∧
    (∀ text ∈ metadata.buildRequires ++ buildRequires,
      ∃ result, (converter.convertOne text []).result = .ok result) ∧
    ∀ patterns ∈ [settings.requiresExtras, settings.suggestsExtras],
      ∀ text ∈ metadata.requiresDist, ∃ result,
        (converter.convertOne text (Glob.select patterns metadata.providesExtra)).result =
          .ok result

end

theorem publishes_convertRequirements (requirements : List String) (o : ConversionOptions)
    (file extras tag : String) :
    (convertRequirements store requirements o file extras tag).Publishes
      (clausePieces store o requirements file extras tag) := by
  refine (reads_effectiveSettings o).publish fun settings => ?_
  refine (Run.reads_check settings.converter).publish fun converter => ?_
  refine (reads_fileRequirements file).publish fun listed => ?_
  dsimp only
  split
  · exact Run.publishes_print _
  · refine (Run.reads_checkLogged _).publish fun clauses => ?_
    apply Run.Publishes.afterDebug
    split
    · exact Run.publishes_lines clauses
    · exact Run.publishes_lines (TagPolicy.tagLine tag clauses)

theorem publishes_printLabels (versions : List String) (strictLocal : Bool) :
    (printLabels versions strictLocal).Publishes fun _ => labelPieces versions strictLocal :=
  (Run.reads_check _).publish fun _ => Run.publishes_print _

theorem publishes_printTags (path : String) (o : ConversionOptions) (buildRequires : List String)
    (pythonVersion : String) :
    (printTags store path o buildRequires pythonVersion).Publishes
      (tagPieces store o path buildRequires pythonVersion) := by
  refine (reads_effectiveSettings o).publish fun settings => ?_
  refine (reads_loadMetadata path).publish fun metadata => ?_
  apply Run.Publishes.afterDebug
  refine (Run.reads_check _).publish fun converter => ?_
  refine (Run.reads_checkLogged _).publish fun lines => ?_
  split
  · exact Run.publishes_print _
  · exact Run.publishes_lines lines

section
variable {o : ConversionOptions} {d : Disk} {printed : List Printed}

/-- As many requirements as results, so there is none of either or some of both. -/
theorem isEmpty_eq_of_converted {converter : Converter} {extras requirements : List String}
    {results : List (Option String)}
    (all : List.Forall₂ (fun text result => (converter.convertOne text extras).result = .ok result)
      requirements results) : requirements.isEmpty = results.isEmpty := by
  cases all <;> rfl

/-- There are clauses to print exactly where each requirement is converted. -/
theorem clausePieces_eq_ok_iff {requirements : List String} {file extras tag : String} :
    clausePieces store o requirements file extras tag d = .ok printed ↔
      ∃ results, Converted store o requirements file extras d results ∧
        printed = shown tag results := by
  simp only [clausePieces, bind_eq_ok_iff, mapError_eq_ok_iff, settingsOn_eq_ok_iff,
    listedOn_eq_ok_iff, Converted]
  constructor
  · rintro ⟨settings, loaded, converter, built, listed, read, pieces⟩
    split at pieces
    · rename_i none
      cases pieces
      refine ⟨[], ⟨settings, converter, listed, loaded, built, read, ?_⟩, rfl⟩
      rw [List.isEmpty_iff.1 none]
      exact .nil
    · rename_i some
      obtain ⟨clauses, converted, pieces⟩ := bind_eq_ok_iff.1 pieces
      obtain ⟨results, all, rfl⟩ := Converter.convert_eq_ok_iff.1 (mapError_eq_ok_iff.1 converted)
      rw [isEmpty_eq_of_converted all] at some
      cases pieces
      exact ⟨results, ⟨settings, converter, listed, loaded, built, read, all⟩, (if_neg some).symm⟩
  · rintro ⟨results, ⟨settings, converter, listed, loaded, built, read, all⟩, rfl⟩
    refine ⟨settings, loaded, converter, built, listed, read, ?_⟩
    rw [shown, ← isEmpty_eq_of_converted all]
    split
    · rfl
    · have converted := Converter.convert_eq_ok_iff.2 ⟨results, all, rfl⟩
      exact bind_eq_ok_iff.2 ⟨_, mapError_eq_ok_iff.2 converted, rfl⟩

/-- One requirement that is refused, wherever it stands, leaves nothing to print. -/
theorem clausePieces_ne_ok {requirements listed : List String} {file extras tag : String}
    {settings : Settings} {converter : Converter} (loaded : Configures store o d settings)
    (built : settings.converter = .ok converter) (read : FileGives d file listed) {text : String}
    (asks : text ∈ requirements ++ listed)
    (refused : ∀ result, (converter.convertOne text (Text.listItems extras)).result ≠ .ok result)
    (printed : List Printed) :
    clausePieces store o requirements file extras tag d ≠ .ok printed := by
  intro pieces
  obtain ⟨results, ⟨_, _, _, loaded', built', read', all⟩, -⟩ := clausePieces_eq_ok_iff.1 pieces
  rw [← settingsOn_eq_ok_iff] at loaded loaded'
  cases loaded.symm.trans loaded'
  cases built.symm.trans built'
  rw [← listedOn_eq_ok_iff] at read read'
  cases read.symm.trans read'
  obtain ⟨result, -, given⟩ := exists_ok_of_mapM (mapM_eq_ok_iff.2 all) asks
  exact refused result given

/-- There are labels to print exactly where each version has one. -/
theorem exists_labelPieces_iff {versions : List String} {strictLocal : Bool} :
    (∃ printed, labelPieces versions strictLocal = .ok printed) ↔
      ∀ text ∈ versions, ∃ label, Version.encodeLiteral strictLocal text = .ok label := by
  constructor
  · rintro ⟨printed, pieces⟩ text asks
    obtain ⟨rows, all, -⟩ := bind_eq_ok_iff.1 pieces
    obtain ⟨row, -, given⟩ := exists_ok_of_mapM (mapError_eq_ok_iff.1 all) asks
    exact exists_labelled_iff.1 ⟨row, given⟩
  · intro all
    obtain ⟨rows, given⟩ := exists_mapM_eq_ok fun text asks => exists_labelled_iff.2 (all text asks)
    exact ⟨_, bind_eq_ok_iff.2 ⟨rows, mapError_eq_ok_iff.2 given, rfl⟩⟩

/-- There are tags to print only where each requirement of the package is converted. -/
theorem packageConverted_of_tagPieces {path pythonVersion : String} {buildRequires : List String}
    (h : tagPieces store o path buildRequires pythonVersion d = .ok printed) :
    PackageConverted store o path buildRequires d := by
  obtain ⟨settings, loaded, h⟩ := bind_eq_ok_iff.1 h
  obtain ⟨metadata, read, h⟩ := bind_eq_ok_iff.1 h
  obtain ⟨converter, built, h⟩ := bind_eq_ok_iff.1 h
  obtain ⟨lines, collected, h⟩ := bind_eq_ok_iff.1 h
  have all := TagPolicy.exists_of_lines (mapError_eq_ok_iff.1 collected)
  refine ⟨settings, converter, metadata, settingsOn_eq_ok_iff.1 loaded, ?_,
    metadataOn_eq_ok_iff.1 read, ?_⟩
  -- the interpreter version has no part in the converter or in the patterns
  · rw [mapError_eq_ok_iff] at built
    split at built <;> exact built
  · split at all <;> exact all

end

/-! ## A run -/

/-- A run that starts prints all that is given, or nothing where nothing is given; a run that does
not start prints nothing. -/
structure Outcome.Publishes (outcome : Outcome) (starts : Prop)
    (given : Except Fault (List Printed)) : Prop where
  done : starts → ∀ printed, given = .ok printed → outcome.status = 0 ∧ outcome.printed = printed
  stopped : ¬(starts ∧ ∃ printed, given = .ok printed) →
    outcome.status = 1 ∧ outcome.printed = []

section
variable {globals : Globals} {action : Action} {m : Run Unit}
  {pieces : Disk → Except Fault (List Printed)}

theorem run_of_publishes (home : String) {args : List String}
    (asked : parse args = .ok (.run globals action))
    (steps : action.run (storeOf home) = m >>= fun _ => pure 0) (publishes : m.Publishes pieces)
    (disk : Disk) (logFiles : Option Log.Files) :
    (run home args disk logFiles).Publishes (Starts (storeOf home) globals disk)
      (pieces (startDisk (storeOf home) globals disk)) := by
  obtain ⟨starts, s, here, quiet, -, printed, status⟩ | ⟨stays, -, failed⟩ :=
    run_cases home asked disk logFiles
  · obtain ⟨output, ends⟩ := publishes s
    rw [conclude, steps, run_bind, ends, here] at printed status
    cases result : pieces (startDisk (storeOf home) globals disk) with
    | error fault =>
      rw [result] at printed status
      refine ⟨?_, fun _ => ⟨status, printed.trans quiet⟩⟩
      intro _ given impossible
      cases impossible
    | ok given =>
      rw [result] at printed status
      change _ = s.printed ++ given at printed
      rw [quiet, List.nil_append] at printed
      refine ⟨?_, fun stopped => absurd ⟨starts, given, rfl⟩ stopped⟩
      rintro - _ ⟨⟩
      exact ⟨status, printed⟩
  · exact ⟨fun starts => absurd starts stays, fun _ => failed⟩

namespace Outcome

variable {outcome : Outcome} {starts : Prop} {given : Except Fault (List Printed)}

theorem Publishes.all_or_nothing (h : outcome.Publishes starts given) :
    outcome.status = 0 ∨ outcome.status = 1 ∧ outcome.printed = [] := by
  by_cases ready : starts ∧ ∃ printed, given = .ok printed
  · obtain ⟨starts, printed, pieces⟩ := ready
    exact .inl (h.done starts printed pieces).1
  · exact .inr (h.stopped ready)

theorem Publishes.status_eq_zero_iff (h : outcome.Publishes starts given) :
    outcome.status = 0 ↔ starts ∧ ∃ printed, given = .ok printed := by
  constructor
  · intro done
    by_contra stays
    rw [(h.stopped stays).1] at done
    cases done
  · rintro ⟨starts, printed, pieces⟩
    exact (h.done starts printed pieces).1

end Outcome

end

/-- What a run leaves that converts requirements: it ends with status 0 exactly where it starts and
each of them is converted, and then it has printed the clauses in their order if no tag is asked
for; where one of them is refused it has printed nothing. -/
structure Outcome.ShowsClauses (outcome : Outcome) (starts : Prop) (store : SettingsStore)
    (o : ConversionOptions) (requirements : List String) (file extras tag : String) (ready : Disk) :
    Prop where
  done : outcome.status = 0 ↔
    starts ∧ ∃ results, Converted store o requirements file extras ready results
  clauses : ∀ results, outcome.status = 0 →
    Converted store o requirements file extras ready results →
    results ≠ [] → tag = "" → outcome.printed = results.reduceOption.map .line
  nothing : ∀ settings converter listed, Configures store o ready settings →
    settings.converter = .ok converter → FileGives ready file listed →
    (∃ text ∈ requirements ++ listed, ∀ result,
      (converter.convertOne text (Text.listItems extras)).result ≠ .ok result) →
    outcome.status = 1 ∧ outcome.printed = []

theorem Outcome.Publishes.showsClauses {outcome : Outcome} {starts : Prop} {o : ConversionOptions}
    {requirements : List String} {file extras tag : String} {ready : Disk}
    (h : outcome.Publishes starts (clausePieces store o requirements file extras tag ready)) :
    outcome.ShowsClauses starts store o requirements file extras tag ready where
  done := by
    rw [h.status_eq_zero_iff]
    apply and_congr_right
    intro _
    simp only [clausePieces_eq_ok_iff]
    constructor
    · rintro ⟨_, results, all, -⟩
      exact ⟨results, all⟩
    · rintro ⟨results, all⟩
      exact ⟨_, results, all, rfl⟩
  clauses := by
    rintro results done all some rfl
    have starts := (h.status_eq_zero_iff.1 done).1
    have printed := (h.done starts _ (clausePieces_eq_ok_iff.2 ⟨results, all, rfl⟩)).2
    rw [printed, shown, if_neg (by rwa [List.isEmpty_iff])]
    rfl
  nothing := by
    rintro settings converter listed loaded built read ⟨text, asks, refused⟩
    apply h.stopped
    rintro ⟨-, printed, pieces⟩
    exact clausePieces_ne_ok loaded built read asks refused printed pieces

/-- The commands that convert requirements or versions and print the results. -/
def Action.Converts : Action → Prop
  | .convert .. | .encode .. | .tags .. => True
  | _ => False

/-- **A command that converts prints all or nothing.** It ends with status 0, or with status 1 and
then it has printed nothing. It runs on the disk that was given, or on one with further directories
if log files are asked for, where every file is read as before. Converting requirements ends with
status 0 exactly where the log is set up and each of them is converted, those of the command line
and those that the lines of the file list, under the settings of the settings file, the further file
and the options; without a tag it prints their clauses then, in the order of the requirements. Where
one of them is not converted it ends with status 1 and prints nothing, with a tag or without.
Versions are encoded only all together, and tags are listed only where each requirement of the
package is converted. -/
theorem output_is_all_or_nothing {home : String} {args : List String} {globals : Globals}
    {action : Action} (asked : parse args = .ok (.run globals action))
    (converts : action.Converts) (disk : Disk) (logFiles : Option Log.Files) :
    let store := storeOf home
    let outcome := run home args disk logFiles
    let ready := startDisk store globals disk
    (outcome.status = 0 ∨ outcome.status = 1 ∧ outcome.printed = []) ∧
    (ready.files = disk.files ∧ (globals.logFile = false → ready = disk) ∧
      ∀ path contents, disk.read path = .ok contents → ready.read path = .ok contents) ∧
    (∀ requirements o file extras tag, action = .convert requirements o file extras tag →
      outcome.ShowsClauses (Starts store globals disk) store o requirements file extras tag ready) ∧
    (∀ versions strictLocal, action = .encode versions strictLocal →
      (outcome.status = 0 ↔ Starts store globals disk ∧
        ∀ text ∈ versions, ∃ label, Version.encodeLiteral strictLocal text = .ok label)) ∧
    ∀ path o buildRequires pythonVersion, action = .tags path o buildRequires pythonVersion →
      outcome.status = 0 → PackageConverted store o path buildRequires ready := by
  intro store outcome ready
  have grown := grown_startDisk store globals disk
  have kept : ready.files = disk.files ∧ (globals.logFile = false → ready = disk) ∧
      ∀ path contents, disk.read path = .ok contents → ready.read path = .ok contents :=
    ⟨grown.files, fun bare => startDisk_of_bare store bare disk, fun _ _ => Disk.read_grown grown⟩
  cases action with
  | convert requirements o file extras tag =>
    have runs := run_of_publishes home asked rfl
      (publishes_convertRequirements requirements o file extras tag) disk logFiles
    refine ⟨runs.all_or_nothing, kept, ?_, nofun, nofun⟩
    rintro _ _ _ _ _ ⟨⟩
    exact runs.showsClauses
  | encode versions strictLocal =>
    have runs := run_of_publishes home asked rfl (publishes_printLabels versions strictLocal) disk
      logFiles
    refine ⟨runs.all_or_nothing, kept, nofun, ?_, nofun⟩
    rintro _ _ ⟨⟩
    rw [runs.status_eq_zero_iff, exists_labelPieces_iff]
  | tags path o buildRequires pythonVersion =>
    have runs := run_of_publishes home asked rfl
      (publishes_printTags path o buildRequires pythonVersion) disk logFiles
    refine ⟨runs.all_or_nothing, kept, nofun, nofun, ?_⟩
    rintro _ _ _ _ ⟨⟩ done
    obtain ⟨-, printed, pieces⟩ := runs.status_eq_zero_iff.1 done
    exact packageConverted_of_tagPieces pieces
  | _ => cases converts

/-- A list whose last requirement is refused, in a file here, leaves nothing of the first. -/
theorem output_is_all_or_nothing_of_refused :
    let action : Action := .convert ["a"] {} "/r" "" ""
    let disk : Disk := { files := [("/r", .text "# more\nb\n! # last\n")] }
    let outcome := run "/home" ["convert", "a", "-f", "/r"] disk none
    (parse ["convert", "a", "-f", "/r"] = .ok (.run {} action) ∧ action.Converts) ∧
      outcome.status = 1 ∧ outcome.printed = [] := by
  intro action disk outcome
  have asked : parse ["convert", "a", "-f", "/r"] = .ok (.run {} action) := by decide +kernel
  have refused : (Requirement.parse "!").toOption = none := by decide +kernel
  have lists : (requirementsOfText "# more\nb\n! # last\n").result.toOption = some ["b", "!"] := by
    decide +kernel
  have place : disk.locate "/r" = .file "/r" := by rw [Disk.locate_eq]; decide
  have held : disk.read "/r" = .ok (.text "# more\nb\n! # last\n") := by
    rw [Disk.read, place]
    rfl
  obtain ⟨options, lists⟩ := requirementsOfText_eq_ok_iff.1 (eq_ok_of_toOption lists)
  have gives : FileGives disk "/r" ["b", "!"] := .inr ⟨by decide, _, options, held, lists⟩
  obtain ⟨outcomes, -, clauses, -⟩ := output_is_all_or_nothing asked trivial disk none
  refine ⟨⟨asked, trivial⟩, outcomes.resolve_left ?_⟩
  intro done
  obtain ⟨-, results, settings, converter, listed, -, -, read, all⟩ :=
    (clauses _ _ _ _ _ rfl).done.1 done
  change FileGives disk "/r" listed at read
  rw [← listedOn_eq_ok_iff] at gives read
  cases gives.symm.trans read
  obtain ⟨result, -, given⟩ : ∃ result ∈ results,
      (converter.convertOne "!" (Text.listItems "")).result = .ok result :=
    exists_ok_of_mapM (mapM_eq_ok_iff.2 all) (by simp)
  obtain ⟨r, parsed, -⟩ := Logged.result_bind_eq_ok_iff.1 given
  change Requirement.parse "!" = .ok r at parsed
  rw [parsed] at refused
  cases refused

end DepClause.Command
