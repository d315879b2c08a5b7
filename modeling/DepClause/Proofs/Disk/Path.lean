import DepClause.Disk.Path
import DepClause.Proofs.Text
import DepClause.Proofs.Text.Plain
import Mathlib.Data.List.Induction

/-!
# Parts of paths

A path is what its parts make with slashes between them, and making it plain makes its parts plain.
The parts in normal form are names behind points that go up.
-/

namespace DepClause.Path

open Text

/-! ## Between slashes -/

theorem slash_not_mem_parts {path p : String} (h : p ∈ parts path) : '/' ∉ p.toList := by
  obtain ⟨l, hl, rfl⟩ := List.mem_map.1 h
  simpa using not_mem_of_mem_splitOn hl

theorem parts_ne_nil (path : String) : parts path ≠ [] := by
  simp [parts, List.splitOn_ne_nil]

theorem intercalate_parts (path : String) : "/".intercalate (parts path) = path := by
  apply String.toList_inj.1
  rw [String.toList_intercalate, parts, List.map_map]
  have whole : String.toList ∘ String.ofList = id := funext fun l => String.toList_ofList
  rw [whole, List.map_id]
  exact List.intercalate_splitOn '/'

theorem parts_intercalate {ps : List String} (some_part : ps ≠ [])
    (slash : ∀ p ∈ ps, '/' ∉ p.toList) : parts ("/".intercalate ps) = ps := by
  have cut : (['/'].intercalate (ps.map String.toList)).splitOn '/' = ps.map String.toList :=
    List.splitOn_intercalate '/' (by simpa using slash) (by simpa using some_part)
  rw [parts, String.toList_intercalate]
  change ((['/'].intercalate _).splitOn '/').map _ = _
  rw [cut, List.map_map]
  have whole : String.ofList ∘ String.toList = id := funext fun s => String.ofList_toList
  rw [whole, List.map_id]

theorem parts_of_slash_free {p : String} (h : '/' ∉ p.toList) : parts p = [p] := by
  have back := parts_intercalate (List.cons_ne_nil p []) (by simpa using h)
  rwa [String.intercalate_singleton] at back

theorem parts_append (s t : String) : parts (s ++ "/" ++ t) = parts s ++ parts t := by
  simp [parts, List.splitOn_append_cons_self]

/-- A path is made plain part by part. -/
theorem toPlain_intercalate (ps : List String) :
    toPlain ("/".intercalate ps) = "/".intercalate (ps.map toPlain) := by
  induction ps with
  | nil => rfl
  | cons p ps ih =>
    cases ps with
    | nil => simp
    | cons q ps =>
      have slash : ("/".intercalate (p :: q :: ps))
          = String.ofList (p.toList ++ '/' :: ("/".intercalate (q :: ps)).toList) := by
        apply String.toList_inj.1
        simp [String.toList_intercalate]
      apply String.toList_inj.1
      rw [slash, toPlain_append (by decide), String.ofList_toList, String.ofList_toList, ih]
      simp [String.toList_intercalate]

theorem parts_toPlain (path : String) : parts (toPlain path) = (parts path).map toPlain := by
  calc parts (toPlain path)
      = parts ("/".intercalate ((parts path).map toPlain)) := by
        rw [← toPlain_intercalate, intercalate_parts]
    _ = (parts path).map toPlain := by
        refine parts_intercalate (by simp [parts_ne_nil]) fun q hq => ?_
        obtain ⟨p, hp, rfl⟩ := List.mem_map.1 hq
        exact fun mem => slash_not_mem_parts hp (mem_of_mem_toPlain mem (by decide))

theorem startsWith_slash (path : String) :
    path.startsWith "/" = (path.toList.head? == some '/') := by
  rw [Bool.eq_iff_iff, String.startsWith_string_iff, beq_iff_eq]
  cases path.toList with
  | nil => simp
  | cons c cs => simp [eq_comm]

/-- A path from the root has an empty first part, which is not the only one. -/
theorem startsWith_slash_iff {path : String} :
    path.startsWith "/" = true ↔ ∃ p ps, parts path = "" :: p :: ps := by
  rw [String.startsWith_string_iff]
  constructor
  · rintro ⟨t, ht⟩
    have whole : path = "" ++ "/" ++ String.ofList t := by
      apply String.toList_inj.1
      simpa using ht.symm
    obtain ⟨p, ps, rest⟩ := List.exists_cons_of_ne_nil (parts_ne_nil (String.ofList t))
    exact ⟨p, ps, by rw [whole, parts_append, rest]; rfl⟩
  · rintro ⟨p, ps, h⟩
    refine ⟨("/".intercalate (p :: ps)).toList, ?_⟩
    rw [← intercalate_parts path, h]
    simp [String.toList_intercalate]

/-! ## Normal form -/

/-- A part that leads into a directory. -/
structure IsName (p : String) : Prop where
  ne_empty : p ≠ ""
  ne_point : p ≠ "."
  ne_up : p ≠ ".."
  slash : '/' ∉ p.toList

/-- A part that leads nowhere. -/
abbrev IsStill (p : String) : Prop := p = "" ∨ p = "."

theorem IsName.not_isStill {p : String} (h : IsName p) : ¬IsStill p :=
  fun still => still.elim h.ne_empty h.ne_point

theorem normalParts_still {p : String} (h : IsStill p) (fromRoot : Bool) (acc ps : List String) :
    normalParts fromRoot acc (p :: ps) = normalParts fromRoot acc ps := by
  rcases h with rfl | rfl <;> cases acc <;> rfl

theorem normalParts_name {p : String} (still : ¬IsStill p) (up : p ≠ "..") (fromRoot : Bool)
    (acc ps : List String) :
    normalParts fromRoot acc (p :: ps) = normalParts fromRoot (p :: acc) ps := by
  simp only [IsStill, not_or] at still
  cases acc <;> simp [normalParts, still, up]

theorem normalParts_back {p : String} (up : p ≠ "..") (fromRoot : Bool) (acc ps : List String) :
    normalParts fromRoot (p :: acc) (".." :: ps) = normalParts fromRoot acc ps := by
  simp [normalParts, up]

/-- Above the root there is nothing to go up to; elsewhere going up once more is one more part. -/
theorem normalParts_up {fromRoot : Bool} {ups : Nat} (h : fromRoot = true → ups = 0)
    (ps : List String) :
    normalParts fromRoot (List.replicate ups "..") (".." :: ps)
      = normalParts fromRoot (List.replicate (if fromRoot then 0 else ups + 1) "..") ps := by
  cases fromRoot with
  | true => simp [h rfl, normalParts]
  | false => cases ups <;> simp [List.replicate_succ, normalParts]

theorem mem_normalParts {fromRoot : Bool} {acc ps : List String} {p : String}
    (h : p ∈ normalParts fromRoot acc ps) : p ∈ acc ∨ p ∈ ps := by
  fun_induction normalParts fromRoot acc ps <;> grind

theorem normalParts_append_name (fromRoot : Bool) (acc ps : List String) {name : String}
    (hn : IsName name) :
    normalParts fromRoot acc (ps ++ [name]) = normalParts fromRoot acc ps ++ [name] := by
  obtain ⟨empty, point, up, -⟩ := hn
  fun_induction normalParts fromRoot acc ps <;> simp_all [normalParts]

/-- Parts that are no points stay what they are where they are made plain. -/
theorem map_normalParts (fromRoot : Bool) (acc ps : List String) :
    (normalParts fromRoot acc ps).map toPlain
      = normalParts fromRoot (acc.map toPlain) (ps.map toPlain) := by
  have empty (p : String) : toPlain p = "" ↔ p = "" := toPlain_eq_iff (by simp)
  have point (p : String) : toPlain p = "." ↔ p = "." := toPlain_eq_iff (by simp)
  have up (p : String) : toPlain p = ".." ↔ p = ".." := toPlain_eq_iff (by simp)
  fun_induction normalParts fromRoot acc ps with
  | case1 acc => simp [normalParts]
  | case2 acc p ps still ih => simp_all [normalParts]
  | case3 p ps moves back ih => cases fromRoot <;> simp_all [normalParts]
  | case4 p ps moves back q rest ih => by_cases above : q = ".." <;> simp_all [normalParts]
  | case5 acc p ps moves ahead ih => simp_all [normalParts]

theorem exists_normalParts_names {fromRoot : Bool} {names ps : List String} {ups : Nat}
    (h : fromRoot = true → ups = 0) (are_names : ∀ p ∈ names, IsName p)
    (slash : ∀ p ∈ ps, '/' ∉ p.toList) :
    ∃ ups' names', normalParts fromRoot (names ++ List.replicate ups "..") ps
        = List.replicate ups' ".." ++ names'
      ∧ (fromRoot = true → ups' = 0) ∧ ∀ p ∈ names', IsName p := by
  induction ps generalizing names ups with
  | nil => exact ⟨ups, names.reverse, by simp [normalParts], h, by simpa using are_names⟩
  | cons p ps ih =>
    have slash_rest : ∀ q ∈ ps, '/' ∉ q.toList := fun q hq => slash q (List.mem_cons_of_mem p hq)
    by_cases still : IsStill p
    · rw [normalParts_still still]
      exact ih h are_names slash_rest
    by_cases up : p = ".."
    · subst up
      cases names with
      | nil =>
        rw [List.nil_append, normalParts_up h]
        exact ih (by intro root; simp [root]) are_names slash_rest
      | cons q names =>
        obtain ⟨hq, rest⟩ := List.forall_mem_cons.1 are_names
        rw [List.cons_append, normalParts_back hq.ne_up]
        exact ih h rest slash_rest
    · rw [normalParts_name still up]
      have hp : IsName p :=
        ⟨fun e => still (.inl e), fun e => still (.inr e), up, slash p List.mem_cons_self⟩
      exact ih h (List.forall_mem_cons.2 ⟨hp, are_names⟩) slash_rest

/-- The parts in normal form first go up and then lead through names. -/
theorem exists_normalParts (fromRoot : Bool) (path : String) :
    ∃ ups names, normalParts fromRoot [] (parts path) = List.replicate ups ".." ++ names
      ∧ (fromRoot = true → ups = 0) ∧ ∀ p ∈ names, IsName p :=
  exists_normalParts_names (fun _ => rfl) (List.forall_mem_nil IsName)
    fun _ => slash_not_mem_parts

theorem normalParts_replicate_up {fromRoot : Bool} {ups : Nat} (h : fromRoot = true → ups = 0) :
    normalParts fromRoot [] (List.replicate ups "..") = List.replicate ups ".." := by
  cases fromRoot with
  | true => simp [h rfl, normalParts]
  | false =>
    have climb (before : Nat) : normalParts false (List.replicate before "..")
        (List.replicate ups "..") = List.replicate (before + ups) ".." := by
      clear h
      induction ups generalizing before with
      | zero => simp [normalParts]
      | succ ups ih =>
        rw [List.replicate_succ, normalParts_up (by simp), if_neg (by simp), ih]
        congr 1
        omega
    simpa using climb 0

/-- Parts in normal form stay as they are. -/
theorem normalParts_normalParts (fromRoot : Bool) (path : String) :
    normalParts fromRoot [] (normalParts fromRoot [] (parts path))
      = normalParts fromRoot [] (parts path) := by
  obtain ⟨ups, names, shape, h, are_names⟩ := exists_normalParts fromRoot path
  rw [shape]
  clear shape
  induction names using List.reverseRecOn with
  | nil => simpa using normalParts_replicate_up h
  | append_singleton names p ih =>
    rw [← List.append_assoc, normalParts_append_name _ _ _ (are_names p (by simp)),
      ih fun q hq => are_names q (by simp [hq])]

theorem parts_empty : parts "" = [""] := rfl

/-- Parts behind a slash or none are those of the text they make, if the last one is a name. -/
theorem parts_of_normal (root : Bool) {ps : List String} {name : String} (hn : IsName name)
    (slash : ∀ p ∈ ps, '/' ∉ p.toList) :
    parts (match (if root then "/" else "") ++ "/".intercalate (ps ++ [name]) with
      | "" => "."
      | path => path) = (if root then [""] else []) ++ ps ++ [name] := by
  have text : (if root then "/" else "") ++ "/".intercalate (ps ++ [name])
      = "/".intercalate ((if root then [""] else []) ++ ps ++ [name]) := by
    cases root
    · simp
    · apply String.toList_inj.1
      cases ps <;> simp [String.toList_intercalate]
  have back : parts ("/".intercalate ((if root then [""] else []) ++ ps ++ [name]))
      = (if root then [""] else []) ++ ps ++ [name] := by
    refine parts_intercalate (by simp) ?_
    cases root <;> simpa [or_imp, forall_and, hn.slash] using slash
  rw [text]
  split
  · rename_i empty
    rw [empty, parts_empty] at back
    have last := congrArg List.getLast? back
    rw [List.getLast?_singleton, List.getLast?_concat, Option.some.injEq] at last
    exact absurd last.symm hn.ne_empty
  · exact back

theorem not_startsWith_slash {name : String} (hn : IsName name) : name.startsWith "/" = false := by
  rw [Bool.eq_false_iff, Ne, String.startsWith_string_iff]
  rintro ⟨t, ht⟩
  exact hn.slash (ht ▸ List.mem_append_left t (by simp))

/-- A name below a directory comes behind the parts of the directory in normal form. -/
theorem parts_join (directory : String) {name : String} (hn : IsName name) :
    parts (join directory name)
      = (if directory.startsWith "/" then [""] else [])
        ++ normalParts (directory.startsWith "/") [] (parts directory) ++ [name] := by
  by_cases none_given : directory = ""
  · have still : normalParts false [] (parts name) = [] ++ [name] := by
      rw [parts_of_slash_free hn.slash]
      exact normalParts_append_name false [] [] hn
    have whole : (if directory.isEmpty then name else directory ++ "/" ++ name) = name :=
      if_pos (by simp [none_given])
    have root : directory.startsWith "/" = false := by
      rw [none_given, Bool.eq_false_iff, Ne, String.startsWith_string_iff]
      simp
    rw [join, whole, not_startsWith_slash hn, still, root, none_given, parts_empty]
    exact parts_of_normal false hn (by simp)
  · have rooted : (directory ++ "/" ++ name).startsWith "/" = directory.startsWith "/" := by
      rw [Bool.eq_iff_iff, String.startsWith_string_iff, String.startsWith_string_iff]
      cases chars : directory.toList with
      | nil => exact absurd (String.toList_inj.1 chars) none_given
      | cons c cs => simp [chars]
    have whole : (if directory.isEmpty then name else directory ++ "/" ++ name)
        = directory ++ "/" ++ name := if_neg (by simpa using none_given)
    rw [join, whole, rooted, parts_append,
      parts_of_slash_free hn.slash, normalParts_append_name _ _ _ hn]
    refine parts_of_normal _ hn fun p hp => ?_
    rcases mem_normalParts hp with hp | hp
    · cases hp
    · exact slash_not_mem_parts hp

theorem startsWith_toPlain (path : String) :
    (toPlain path).startsWith "/" = path.startsWith "/" := by
  have empty (p : String) : toPlain p = "" ↔ p = "" := toPlain_eq_iff (by simp)
  rw [Bool.eq_iff_iff, startsWith_slash_iff, startsWith_slash_iff, parts_toPlain]
  rcases parts path with _ | ⟨p, _ | ⟨q, ps⟩⟩ <;> simp [empty]

theorem startsWith_join (directory : String) {name : String} (hn : IsName name) :
    (join directory name).startsWith "/" = directory.startsWith "/" := by
  cases root : directory.startsWith "/" with
  | true =>
    obtain ⟨p, ps, behind⟩ := List.exists_cons_of_ne_nil
      (List.append_ne_nil_of_right_ne_nil (normalParts true [] (parts directory))
        (List.cons_ne_nil name []))
    refine startsWith_slash_iff.2 ⟨p, ps, ?_⟩
    rw [parts_join directory hn, root, ← behind]
    rfl
  | false =>
    rw [Bool.eq_false_iff, Ne, startsWith_slash_iff, parts_join directory hn, root]
    rintro ⟨p, ps, first⟩
    obtain ⟨ups, names, shape, -, are_names⟩ := exists_normalParts false directory
    have empty : "" ∈ List.replicate ups ".." ++ names ++ [name] := by
      rw [← shape]
      simp_all
    simp only [List.mem_append, List.mem_singleton, List.mem_replicate] at empty
    rcases empty with (⟨-, up⟩ | empty) | empty
    · exact absurd up (by decide)
    · exact (are_names "" empty).ne_empty rfl
    · exact hn.ne_empty empty.symm

/-- A name below a path in normal form is written behind it. -/
theorem join_join (directory : String) {name base : String} (hb : IsName base) (hn : IsName name) :
    join (join directory base) name = join directory base ++ "/" ++ name := by
  have below : parts (join (join directory base) name)
      = parts (join directory base) ++ [name] := by
    have still : normalParts (directory.startsWith "/") [] (parts (join directory base))
        = normalParts (directory.startsWith "/") [] (parts directory) ++ [base] := by
      rw [parts_join directory hb, normalParts_append_name _ _ _ hb]
      cases directory.startsWith "/" with
      | true =>
        rw [if_pos rfl, List.singleton_append, normalParts_still (.inl rfl),
          normalParts_normalParts]
      | false => rw [if_neg (by simp), List.nil_append, normalParts_normalParts]
    rw [parts_join _ hn, startsWith_join directory hb, still, parts_join directory hb]
    simp only [List.append_assoc]
  calc join (join directory base) name
      = "/".intercalate (parts (join directory base) ++ [name]) := by
        rw [← below, intercalate_parts]
    _ = "/".intercalate (parts (join directory base ++ "/" ++ name)) := by
        rw [parts_append, parts_of_slash_free hn.slash]
    _ = join directory base ++ "/" ++ name := intercalate_parts _

end DepClause.Path
