import Mathlib.Data.List.Chain
import DepClause.Proofs.Command.Setup
import DepClause.Proofs.Label.RunOrder
import DepClause.Proofs.Label.VersionOrder
import DepClause.Proofs.Version.Sorting

/-!
# The check of a sorted list

The command that sorts versions compares the labels of neighbours only. Labels without a release
have a transitive order and so have versions, so in a sorted list neighbours that agree leave no
pair that does not.
-/

namespace DepClause.Command

/-- A literal with the version that it writes and the label of that version. -/
structure Labelled.Sound (strictLocal : Bool) (a : Labelled) : Prop where
  version : Version.parse a.literal = .ok a.version
  label : a.version.encode strictLocal a.literal = .ok a.label

/-- Two labels stand as their versions do. -/
def Labelled.Agrees (a b : Labelled) : Prop :=
  Label.compareTexts a.label b.label = Version.compare a.version b.version

instance (a b : Labelled) : Decidable (a.Agrees b) :=
  inferInstanceAs (Decidable (Label.compareTexts a.label b.label = _))

theorem labelled_eq_ok {strictLocal : Bool} {literal : String} {a : Labelled}
    (h : labelled strictLocal literal = .ok a) : a.literal = literal ∧ a.Sound strictLocal := by
  obtain ⟨v, hv, h⟩ := bind_eq_ok_iff.1 h
  obtain ⟨l, hl, h⟩ := bind_eq_ok_iff.1 h
  cases h
  exact ⟨rfl, hv, hl⟩

/-- A literal is shown with its label where it has one. -/
theorem exists_labelled_iff {strictLocal : Bool} {literal : String} :
    (∃ a, labelled strictLocal literal = .ok a) ↔
      ∃ label, Version.encodeLiteral strictLocal literal = .ok label := by
  rw [labelled, Version.encodeLiteral]
  constructor
  · rintro ⟨a, h⟩
    obtain ⟨v, read, h⟩ := bind_eq_ok_iff.1 h
    obtain ⟨label, encoded, -⟩ := bind_eq_ok_iff.1 h
    exact ⟨label, bind_eq_ok_iff.2 ⟨v, read, encoded⟩⟩
  · rintro ⟨label, h⟩
    obtain ⟨v, read, encoded⟩ := bind_eq_ok_iff.1 h
    exact ⟨⟨literal, v, label⟩, bind_eq_ok_iff.2 ⟨v, read, bind_eq_ok_iff.2 ⟨label, encoded, rfl⟩⟩⟩

section
variable {strictLocal : Bool} {a b c : Labelled}

theorem Labelled.Sound.wellFormed (h : a.Sound strictLocal) : a.version.WellFormed :=
  Version.parse_wellFormed h.version

theorem Labelled.Sound.label_eq (h : a.Sound strictLocal) : a.label = a.version.label :=
  (Version.encode_eq_ok h.label).symm

/-- The label of a version has no release, so it compares by epoch and version alone. -/
theorem Labelled.Sound.compareTexts_eq (ha : a.Sound strictLocal) :
    Label.compareTexts a.label b.label
      = (Label.parse a.label).compareBare (Label.parse b.label) := by
  apply Label.compare_eq_compareBare
  rw [ha.label_eq, Version.parse_label ha.wellFormed]

/-- Where two steps upwards agree, the way from one end to the other does. -/
theorem Labelled.Agrees.trans (ha : a.Sound strictLocal) (hb : b.Sound strictLocal)
    (hab : a.Agrees b) (hbc : b.Agrees c) (leab : (Version.compare a.version b.version).isLE)
    (lebc : (Version.compare b.version c.version).isLE) : a.Agrees c := by
  unfold Agrees at hab hbc ⊢
  rw [ha.compareTexts_eq] at hab ⊢
  rw [hb.compareTexts_eq] at hbc
  have labels := compare_eq_then_of_isLE (hab ▸ leab) (hbc ▸ lebc)
  rw [labels, compare_eq_then_of_isLE leab lebc, hab, hbc]

end

/-- Versions without a mixed local part agree. -/
theorem agrees_of_unmixed {strictLocal : Bool} {a b : Labelled} (ha : a.Sound strictLocal)
    (hb : b.Sound strictLocal) (hma : ¬a.version.HasMixedPart) (hmb : ¬b.version.HasMixedPart) :
    a.Agrees b := by
  rw [Labelled.Agrees, ha.label_eq, hb.label_eq]
  exact Version.compareTexts_label_eq ha.wellFormed hb.wellFormed fun _ _ _ => ⟨hma, hmb⟩

/-- The neighbours in a list. -/
def neighbours (items : List Labelled) : List (Labelled × Labelled) := items.zip items.tail

theorem agreements_eq (items : List Labelled) :
    agreements items = (neighbours items).map fun (a, b) => decide (a.Agrees b) := by
  induction items with
  | nil => rfl
  | cons a rest ih =>
    cases rest with
    | nil => rfl
    | cons b rest =>
      have head : (Version.compare a.version b.version == Label.compareTexts a.label b.label)
          = decide (a.Agrees b) := by
        rw [Bool.beq_comm]
        rfl
      rw [agreements, head, ih]
      rfl

theorem mismatches_eq (items : List Labelled) :
    mismatches items = (neighbours items).countP fun (a, b) => ¬a.Agrees b := by
  rw [mismatches, agreements_eq, List.count, List.countP_map]
  apply List.countP_congr
  rintro ⟨a, b⟩ -
  simp

theorem mismatches_eq_zero_iff (items : List Labelled) :
    mismatches items = 0 ↔ items.IsChain Labelled.Agrees := by
  rw [mismatches_eq, List.countP_eq_zero]
  induction items with
  | nil => simp [neighbours]
  | cons a rest ih =>
    cases rest with
    | nil => simp [neighbours]
    | cons b rest =>
      have pairs : neighbours (a :: b :: rest) = (a, b) :: neighbours (b :: rest) := rfl
      rw [pairs, List.forall_mem_cons, ih, List.isChain_cons_cons]
      simp

/-- What is known of the list that a sort leaves: the literals given, in the order of their
versions, each with its version and label. -/
structure IsSorted (versions : List String) (strictLocal : Bool) (items : List Labelled) :
    Prop where
  perm : (items.map Labelled.literal).Perm versions
  ascending : items.Pairwise fun a b => (Version.compare a.version b.version).isLE
  sound : ∀ a ∈ items, a.Sound strictLocal

theorem isSorted_of_sorted {versions : List String} {strictLocal : Bool} {items : List Labelled}
    (h : sorted versions strictLocal = .ok items) : IsSorted versions strictLocal items := by
  obtain ⟨literals, hs, h⟩ := bind_eq_ok_iff.1 h
  obtain ⟨perm, ascending⟩ := Version.sortLiterals_eq_ok hs
  obtain rfl := map_eq_of_mapM (fun _ _ ha => (labelled_eq_ok ha).1) h
  have sound : ∀ a ∈ items, a.Sound strictLocal := by
    intro a ha
    obtain ⟨literal, _, ha⟩ := exists_of_mem_mapM h ha
    exact (labelled_eq_ok ha).2
  refine ⟨perm, ?_, sound⟩
  refine (List.pairwise_map.1 ascending).imp_of_mem ?_
  intro a b ha hb le
  exact le _ _ (sound a ha).version (sound b hb).version

/-- In an ascending list agreement is handed on from neighbour to neighbour. -/
theorem pairwise_agrees_of_isChain {strictLocal : Bool} {items : List Labelled}
    (sound : ∀ a ∈ items, a.Sound strictLocal)
    (ascending : items.Pairwise fun a b => (Version.compare a.version b.version).isLE)
    (chain : items.IsChain Labelled.Agrees) : items.Pairwise Labelled.Agrees := by
  induction items with
  | nil => exact .nil
  | cons a rest ih =>
    cases rest with
    | nil => exact List.pairwise_singleton _ _
    | cons b rest =>
      obtain ⟨hab, chain⟩ := List.isChain_cons_cons.1 chain
      obtain ⟨above, ascending⟩ := List.pairwise_cons.1 ascending
      have pairs := ih (fun c hc => sound c (List.mem_cons_of_mem a hc)) ascending chain
      refine List.pairwise_cons.2 ⟨?_, pairs⟩
      intro c hc
      rcases List.mem_cons.1 hc with rfl | hc
      · exact hab
      · have hbc := (List.pairwise_cons.1 pairs).1 c hc
        have le := (List.pairwise_cons.1 ascending).1 c hc
        exact hab.trans (sound a List.mem_cons_self)
          (sound b (List.mem_cons_of_mem a List.mem_cons_self)) hbc
          (above b List.mem_cons_self) le

theorem IsSorted.mismatches_eq_zero_iff {versions : List String} {strictLocal : Bool}
    {items : List Labelled} (h : IsSorted versions strictLocal items) :
    mismatches items = 0 ↔ items.Pairwise Labelled.Agrees := by
  rw [Command.mismatches_eq_zero_iff]
  exact ⟨pairwise_agrees_of_isChain h.sound h.ascending, fun pairs => pairs.isChain⟩

theorem IsSorted.mismatches_eq_zero {versions : List String} {strictLocal : Bool}
    {items : List Labelled} (h : IsSorted versions strictLocal items)
    (unmixed : ∀ text ∈ versions, ∀ v, Version.parse text = .ok v → ¬v.HasMixedPart) :
    mismatches items = 0 := by
  have part (a : Labelled) (ha : a ∈ items) : ¬a.version.HasMixedPart := by
    have given : a.literal ∈ versions := h.perm.subset (List.mem_map_of_mem ha)
    exact unmixed a.literal given a.version (h.sound a ha).version
  rw [h.mismatches_eq_zero_iff]
  apply List.pairwise_of_forall_mem_list
  intro a ha b hb
  exact agrees_of_unmixed (h.sound a ha) (h.sound b hb) (part a ha) (part b hb)

/-! ## The report -/

/-- The mark of an item: whether its label stands to the one before it as their versions do. -/
inductive Mark (items : List Labelled) : Nat → String → Prop
  | first : Mark items 0 "-"
  | agrees {i : Nat} {a b : Labelled} (here : items[i]? = some a) (next : items[i + 1]? = some b)
      (h : a.Agrees b) : Mark items (i + 1) "✓"
  | differs {i : Nat} {a b : Labelled} (here : items[i]? = some a) (next : items[i + 1]? = some b)
      (h : ¬a.Agrees b) : Mark items (i + 1) "✗"

/-- A table with a row for each item: its place, its literal, its label and its mark. -/
structure Tabulates (items : List Labelled) (rows : List (List String)) : Prop where
  length : rows.length = items.length
  row : ∀ i a, items[i]? = some a →
    ∃ mark, Mark items i mark ∧ rows[i]? = some [toString (i + 1), a.literal, a.label, mark]

/-- The last line of a report on a list in which a number of neighbours do not agree. -/
def verdict : Nat → String
  | 0 => "\n✓ RPM 순서가 PEP 440 순서와 일치합니다"
  | n => "\nRPM 순서가 다른 항목: " ++ toString n ++ "개"

theorem verdict_eq_iff {n : Nat} : verdict n = verdict 0 ↔ n = 0 := by
  cases n with
  | zero => exact iff_of_true rfl rfl
  | succ n =>
    refine iff_of_false ?_ n.succ_ne_zero
    intro same
    have chars := congrArg String.toList same
    simp only [verdict, String.toList_append] at chars
    cases (List.cons.inj (List.cons.inj chars).2).1

/-- What a run reports on a sorted list: its table and the number of neighbours that do not agree,
by which it ends with status 0 or 1. -/
structure Reports (items : List Labelled) (outcome : Outcome) : Prop where
  printed : ∃ rows, Tabulates items rows ∧ outcome.printed =
    [.table ["#", "버전", "RPM 레이블", "RPM 순서"] rows,
     .line (verdict ((neighbours items).countP fun (a, b) => ¬a.Agrees b))]
  status : outcome.status =
    if ((neighbours items).countP fun (a, b) => ¬a.Agrees b) = 0 then 0 else 1

/-- The marks that the command prints. -/
def marks (items : List Labelled) : List String :=
  "-" :: (agreements items).map fun agrees => if agrees then "✓" else "✗"

theorem exists_mark {items : List Labelled} {i : Nat} {a : Labelled} (here : items[i]? = some a) :
    ∃ mark, Mark items i mark ∧ (marks items)[i]? = some mark := by
  cases i with
  | zero => exact ⟨"-", .first, rfl⟩
  | succ i =>
    obtain ⟨bound, -⟩ := List.getElem?_eq_some_iff.1 here
    have before : items[i]? = some items[i] := List.getElem?_eq_getElem (by omega)
    have pair : (neighbours items)[i]? = some (items[i], a) :=
      List.getElem?_zip_eq_some.2 ⟨before, by rwa [List.getElem?_tail]⟩
    have printed : (marks items)[i + 1]? = some (if items[i].Agrees a then "✓" else "✗") := by
      rw [marks, List.getElem?_cons_succ, agreements_eq, List.getElem?_map, List.getElem?_map, pair]
      simp
    by_cases h : items[i].Agrees a
    · exact ⟨"✓", .agrees before here h, by rw [printed, if_pos h]⟩
    · exact ⟨"✗", .differs before here h, by rw [printed, if_neg h]⟩

theorem length_le_marks (items : List Labelled) : items.length ≤ (marks items).length := by
  rw [marks, List.length_cons, List.length_map, agreements_eq, List.length_map, neighbours,
    List.length_zip, List.length_tail]
  omega

theorem tabulates_rows (items : List Labelled) :
    Tabulates items ((items.zip (marks items)).zipIdx.map fun ((item, mark), i) =>
      [toString (i + 1), item.literal, item.label, mark]) where
  length := by
    rw [List.length_map, List.length_zipIdx, List.length_zip]
    exact Nat.min_eq_left (length_le_marks items)
  row i a here := by
    obtain ⟨mark, known, printed⟩ := exists_mark here
    have pair : (items.zip (marks items))[i]? = some (a, mark) :=
      List.getElem?_zip_eq_some.2 ⟨here, printed⟩
    refine ⟨mark, known, ?_⟩
    rw [List.getElem?_map, List.getElem?_zipIdx, pair, Nat.zero_add]
    rfl

theorem Run.check_ok_bind {α β : Type} (a : α) (next : α → Run β) :
    (Run.check (.ok a) >>= next) = next a := rfl

/-- The command fails just where the sort does. Else it prints the table and the verdict, and
answers whether all neighbours agree. -/
theorem run_printSorted {versions : List String} {strictLocal : Bool} {items : List Labelled}
    (h : sorted versions strictLocal = .ok items) (s : Session) :
    (printSorted versions strictLocal).run.run s = (.ok (mismatches items == 0), { s with
      printed := s.printed ++
        [.table ["#", "버전", "RPM 레이블", "RPM 순서"]
          ((items.zip (marks items)).zipIdx.map fun ((item, mark), i) =>
            [toString (i + 1), item.literal, item.label, mark]),
         .line (verdict (mismatches items))] }) := by
  have both (p q : Printed) : s.printed ++ [p, q] = s.printed ++ [p] ++ [q] := by simp
  unfold printSorted
  rw [h, Run.check_ok_bind, both]
  cases mismatches items <;> rfl

theorem run_printSorted_of_refused {versions : List String} {strictLocal : Bool}
    {failure : Failure} (h : sorted versions strictLocal = .error failure) (s : Session) :
    (printSorted versions strictLocal).run.run s = (.error (.refused failure), s) := by
  unfold printSorted
  rw [h]
  rfl

/-- The versions are sorted where each of them has a label. -/
theorem exists_sorted_iff {versions : List String} {strictLocal : Bool} :
    (∃ items, sorted versions strictLocal = .ok items) ↔
      ∀ text ∈ versions, ∃ label, Version.encodeLiteral strictLocal text = .ok label := by
  constructor
  · rintro ⟨items, h⟩ text mem
    obtain ⟨literals, hs, h⟩ := bind_eq_ok_iff.1 h
    have there : text ∈ literals := (Version.sortLiterals_eq_ok hs).1.symm.subset mem
    obtain ⟨a, -, ha⟩ := exists_ok_of_mapM h there
    exact exists_labelled_iff.1 ⟨a, ha⟩
  · intro all
    have read (text : String) (mem : text ∈ versions) : ∃ v, Version.parse text = .ok v := by
      obtain ⟨label, h⟩ := all text mem
      obtain ⟨v, read, -⟩ := bind_eq_ok_iff.1 h
      exact ⟨v, read⟩
    let value (text : String) : Version := (Version.parse text).toOption.getD { release := [] }
    have values (text : String) (mem : text ∈ versions) :
        Version.parse text = .ok (value text) := by
      obtain ⟨v, h⟩ := read text mem
      simp only [value, h, Except.toOption, Option.getD_some]
    have sorts := Version.sortLiterals_of_read values
    obtain ⟨items, h⟩ := exists_mapM_eq_ok fun text mem =>
      exists_labelled_iff.2 (all text ((Version.sort_perm value versions).subset mem))
    exact ⟨items, bind_eq_ok_iff.2 ⟨_, sorts, h⟩⟩

/-! ## A run -/

theorem run_sort_eq_bind (store : SettingsStore) (versions : List String) (strictLocal : Bool) :
    Action.run store (.sort versions strictLocal)
      = printSorted versions strictLocal >>= fun agrees => pure (if agrees then 0 else 1) := rfl

section
variable {home : String} {args : List String} {globals : Globals} {versions : List String}
  {strictLocal : Bool} {items : List Labelled}

theorem reports_of_sorted (asked : parse args = .ok (.run globals (.sort versions strictLocal)))
    {disk : Disk} (starts : Starts (storeOf home) globals disk)
    (h : sorted versions strictLocal = .ok items) (logFiles : Option Log.Files) :
    Reports items (run home args disk logFiles) := by
  obtain ⟨-, s, -, quiet, -, printed, status⟩ | ⟨stays, -⟩ := run_cases home asked disk logFiles
  · rw [conclude, run_sort_eq_bind, run_bind, run_printSorted h, quiet, mismatches_eq]
      at printed status
    refine ⟨⟨_, tabulates_rows items, printed⟩, status.trans ?_⟩
    change (if (_ == 0) = true then 0 else 1) = _
    simp only [beq_iff_eq]
  · exact absurd starts stays

theorem quiet_of_refused (asked : parse args = .ok (.run globals (.sort versions strictLocal)))
    {failure : Failure} (h : sorted versions strictLocal = .error failure) (disk : Disk)
    (logFiles : Option Log.Files) :
    (run home args disk logFiles).status = 1 ∧ (run home args disk logFiles).printed = [] := by
  obtain ⟨-, s, -, quiet, -, printed, status⟩ | ⟨-, -, silent⟩ := run_cases home asked disk logFiles
  · rw [conclude, run_sort_eq_bind, run_bind, run_printSorted_of_refused h] at printed status
    exact ⟨status, printed.trans quiet⟩
  · exact silent

/-- **Comparing neighbours is enough.** A run of the command prints nothing and ends with status 1
if the log cannot be set up or a version has no label. Else it sorts the versions and reports how
many neighbours do not agree, and it reports none, with status 0, just if the labels of every two
versions in the list stand as the versions do. It reports none if no version has a mixed local
part. -/
theorem neighbours_stand_for_pairs
    (asked : parse args = .ok (.run globals (.sort versions strictLocal))) (disk : Disk)
    (logFiles : Option Log.Files) :
    let outcome := run home args disk logFiles
    let sorts := Starts (storeOf home) globals disk ∧
      ∀ text ∈ versions, ∃ label, Version.encodeLiteral strictLocal text = .ok label
    (¬sorts → outcome.status = 1 ∧ outcome.printed = []) ∧
    (sorts → ∃ items, sorted versions strictLocal = .ok items ∧
      IsSorted versions strictLocal items ∧ Reports items outcome ∧
      (outcome.status = 0 ↔ items.Pairwise Labelled.Agrees) ∧
      (outcome.printed.getLast? = some (.line (verdict 0)) ↔ items.Pairwise Labelled.Agrees) ∧
      ((∀ text ∈ versions, ∀ v, Version.parse text = .ok v → ¬v.HasMixedPart) →
        items.Pairwise Labelled.Agrees)) := by
  intro outcome sorts
  constructor
  · intro refused
    by_cases starts : Starts (storeOf home) globals disk
    · cases h : sorted versions strictLocal with
      | error failure => exact quiet_of_refused asked h disk logFiles
      | ok items => exact absurd ⟨starts, exists_sorted_iff.1 ⟨items, h⟩⟩ refused
    · obtain ⟨starts', -⟩ | ⟨-, -, silent⟩ := run_cases home asked disk logFiles
      · exact absurd starts' starts
      · exact silent
  · rintro ⟨starts, labels⟩
    obtain ⟨items, h⟩ := exists_sorted_iff.2 labels
    have known := isSorted_of_sorted h
    have report : Reports items outcome := reports_of_sorted asked starts h logFiles
    have pairs := known.mismatches_eq_zero_iff
    rw [mismatches_eq] at pairs
    refine ⟨items, h, known, report, ?_, ?_, ?_⟩
    · rw [report.status, ← pairs]
      split <;> simp_all
    · obtain ⟨rows, -, printed⟩ := report.printed
      rw [printed, ← pairs, ← verdict_eq_iff]
      simp
    · intro unmixed
      exact known.mismatches_eq_zero_iff.1 (known.mismatches_eq_zero unmixed)

end

/-- As a word `a10` comes before `a9`, in a label the number decides. -/
theorem neighbours_stand_for_pairs_of_mixed :
    let args := ["--debug", "sort", "1.0+a9", "1.0", "1.0+a10"]
    let outcome := run "/home" args {} none
    let versions := ["1.0+a9", "1.0", "1.0+a10"]
    (parse args = .ok (.run { debug := true } (.sort versions false)) ∧
      Starts (storeOf "/home") { debug := true } {} ∧
      ∀ text ∈ versions, ∃ label, Version.encodeLiteral false text = .ok label) ∧
      outcome.status = 1 ∧ outcome.printed.getLast? = some (.line "\nRPM 순서가 다른 항목: 1개") := by
  intro args outcome versions
  have asked : parse args = .ok (.run { debug := true } (.sort versions false)) := by
    decide +kernel
  have starts : Starts (storeOf "/home") { debug := true } {} := ⟨.inl rfl, nofun⟩
  have labels : ∀ text ∈ versions, ∃ label, Version.encodeLiteral false text = .ok label := by
    simp only [versions, List.forall_mem_cons]
    refine ⟨⟨"1.0^a9", by cbv⟩, ⟨"1.0", by cbv⟩, ⟨"1.0^a10", by cbv⟩, List.forall_mem_nil _⟩
  have sorts : sorted versions false = .ok
      [⟨"1.0", { release := [1, 0] }, "1.0"⟩,
       ⟨"1.0+a10", { release := [1, 0], localParts := some [.word "a10"] }, "1.0^a10"⟩,
       ⟨"1.0+a9", { release := [1, 0], localParts := some [.word "a9"] }, "1.0^a9"⟩] := by cbv
  obtain ⟨-, reports⟩ := neighbours_stand_for_pairs asked {} none
  obtain ⟨items, given, -, report, -⟩ := reports ⟨starts, labels⟩
  cases given.symm.trans sorts
  obtain ⟨rows, -, printed⟩ := report.printed
  refine ⟨⟨asked, starts, labels⟩, ?_, ?_⟩
  · rw [report.status]
    cbv
  · rw [printed]
    cbv

end DepClause.Command
