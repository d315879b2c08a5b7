import DepClause.Disk.Basic
import DepClause.Proofs.Disk.Path

/-!
# Where paths lead

The parts of a path alone say at which location it ends, if it ends at one. What the disk holds
decides only whether it does.
-/

namespace DepClause.Disk

open DepClause.Path Text

/-- The location to which a part leads from a directory. -/
def step (location p : String) : String :=
  if IsStill p then location
  else if p = ".." then parent location
  else child location p

/-- The location at the end of parts that start at a directory. -/
def walk (location : String) (ps : List String) : String := ps.foldl step location

/-- The location that a path names. -/
def location (d : Disk) (path : String) : String :=
  walk (d.startOf (toPlain path)) (parts (toPlain path))

/-- The location of a place that has one. -/
def Place.location? : Place → Option String
  | .file l | .directory l | .vacant l => some l
  | .missing | .notDirectory | .nameTooLong | .nullInPath => none

/-! ## Steps -/

theorem parent_child {location name : String} (h : '/' ∉ name.toList) :
    parent (child location name) = location := by
  have chars : (child location name).toList.reverse
      = name.toList.reverse ++ '/' :: location.toList.reverse := by
    simp [child, String.toList_append]
  have cut : (name.toList.reverse ++ '/' :: location.toList.reverse).dropWhile (· != '/')
      = '/' :: location.toList.reverse := by
    rw [List.dropWhile_append_of_pos fun c hc => ?_]
    · rfl
    · rw [bne_iff_ne]
      exact fun eq => h (eq ▸ List.mem_reverse.1 hc)
  rw [parent, chars, cut, List.drop_one, List.tail_cons, List.reverse_reverse,
    String.ofList_toList]

theorem child_inj {l m p q : String} (hp : '/' ∉ p.toList) (hq : '/' ∉ q.toList)
    (h : child l p = child m q) : l = m ∧ p = q := by
  have same : l = m := by
    have parents := congrArg parent h
    rwa [parent_child hp, parent_child hq] at parents
  subst same
  refine ⟨rfl, String.toList_inj.1 ?_⟩
  have chars := congrArg String.toList h
  simpa [child] using chars

theorem step_still {p : String} (h : IsStill p) (l : String) : step l p = l := if_pos h

theorem step_up (l : String) : step l ".." = parent l := rfl

theorem step_name {p : String} (still : ¬IsStill p) (up : p ≠ "..") (l : String) :
    step l p = child l p := by
  rw [step, if_neg still, if_neg up]

theorem walk_nil (l : String) : walk l [] = l := rfl

theorem walk_cons (l p : String) (ps : List String) : walk l (p :: ps) = walk (step l p) ps := rfl

theorem walk_still {p : String} (h : IsStill p) (l : String) (ps : List String) :
    walk l (p :: ps) = walk l ps := by
  rw [walk_cons, step_still h]

theorem walk_name {p : String} (still : ¬IsStill p) (up : p ≠ "..") (l : String)
    (ps : List String) : walk l (p :: ps) = walk (child l p) ps := by
  rw [walk_cons, step_name still up]

theorem walk_append (l : String) (ps qs : List String) :
    walk l (ps ++ qs) = walk (walk l ps) qs := List.foldl_append

theorem walk_concat (l : String) (ps : List String) (p : String) :
    walk l (ps ++ [p]) = step (walk l ps) p := by
  rw [walk_append]
  rfl

/-- A path that never goes up does not end above its start. -/
theorem length_le_walk {ps : List String} (h : ".." ∉ ps) (l : String) :
    l.length ≤ (walk l ps).length := by
  induction ps generalizing l with
  | nil => exact Nat.le_refl _
  | cons p ps ih =>
    obtain ⟨up, rest⟩ := not_or.1 fun mem => h (List.mem_cons.2 mem)
    by_cases still : IsStill p
    · rw [walk_still still]
      exact ih rest l
    · have longer : l.length ≤ (child l p).length := by
        rw [child, String.length_append, String.length_append]
        omega
      rw [walk_name still (Ne.symm up)]
      exact Nat.le_trans longer (ih rest (child l p))

/-- Parts in normal form lead to the same location. -/
theorem walk_normalParts_names {fromRoot : Bool} {l : String} (root : fromRoot = true → l = "")
    {names ps : List String} {ups : Nat} (h : fromRoot = true → ups = 0)
    (are_names : ∀ p ∈ names, IsName p) (slash : ∀ p ∈ ps, '/' ∉ p.toList) :
    walk l (normalParts fromRoot (names ++ List.replicate ups "..") ps)
      = walk (walk l (names ++ List.replicate ups "..").reverse) ps := by
  induction ps generalizing names ups with
  | nil => rfl
  | cons p ps ih =>
    have slash_rest : ∀ q ∈ ps, '/' ∉ q.toList := fun q hq => slash q (List.mem_cons_of_mem p hq)
    by_cases still : IsStill p
    · rw [normalParts_still still, ih h are_names slash_rest, walk_still still]
    by_cases up : p = ".."
    · subst up
      cases names with
      | nil =>
        rw [List.nil_append, normalParts_up h, ← List.nil_append (List.replicate _ _),
          ih (by intro root; simp [root]) are_names slash_rest, walk_cons]
        refine congrArg (walk · ps) ?_
        cases fromRoot with
        | true => simp [h rfl, root rfl, walk, step_up, parent]
        | false =>
          simp only [Bool.false_eq_true, ↓reduceIte, List.nil_append, List.reverse_replicate]
          rw [List.replicate_succ', walk_concat]
      | cons q names =>
        obtain ⟨hq, rest⟩ := List.forall_mem_cons.1 are_names
        rw [List.cons_append, normalParts_back hq.ne_up, ih h rest slash_rest, List.reverse_cons,
          walk_concat, walk_cons, step_name hq.not_isStill hq.ne_up, step_up,
          parent_child hq.slash]
    · rw [normalParts_name still up]
      have hp : IsName p :=
        ⟨fun e => still (.inl e), fun e => still (.inr e), up, slash p List.mem_cons_self⟩
      rw [← List.cons_append, ih h (List.forall_mem_cons.2 ⟨hp, are_names⟩) slash_rest,
        List.cons_append, List.reverse_cons, walk_concat, walk_cons]

theorem walk_normalParts {fromRoot : Bool} {l : String} (root : fromRoot = true → l = "")
    {ps : List String} (slash : ∀ p ∈ ps, '/' ∉ p.toList) :
    walk l (normalParts fromRoot [] ps) = walk l ps :=
  walk_normalParts_names root (fun _ => rfl) (List.forall_mem_nil IsName) slash

/-! ## Following parts -/

theorem follow_nil (d : Disk) (place : Place) : d.follow place [] = place := rfl

theorem follow_still {p : String} (h : IsStill p) (d : Disk) (l : String) (ps : List String) :
    d.follow (.directory l) (p :: ps) = d.follow (.directory l) ps := by
  rw [follow, if_pos (by simpa using h)]

theorem follow_name {p : String} (still : ¬IsStill p) (up : p ≠ "..") (d : Disk) (l : String)
    (ps : List String) :
    d.follow (.directory l) (p :: ps)
      = if longestName < p.utf8ByteSize then .nameTooLong
        else d.follow (d.placeOf (child l p)) ps := by
  rw [follow, if_neg (by simpa using still), if_neg (by simpa using up)]

theorem follow_fault {place : Place} (h : place.location? = none) (d : Disk) (ps : List String) :
    d.follow place ps = place := by
  cases ps with
  | nil => rfl
  | cons p ps => cases place <;> first | rfl | cases h

theorem follow_append (d : Disk) (place : Place) (ps qs : List String) :
    d.follow place (ps ++ qs) = d.follow (d.follow place ps) qs := by
  induction ps generalizing place with
  | nil => rfl
  | cons p ps ih =>
    cases place with
    | file l => exact (follow_fault rfl d qs).symm
    | vacant l =>
      simp only [List.cons_append, follow]
      split
      · exact ih _
      · exact (follow_fault rfl d qs).symm
    | directory l =>
      by_cases still : IsStill p
      · rw [List.cons_append, follow_still still, follow_still still]
        exact ih _
      by_cases up : p = ".."
      · subst up
        exact ih _
      · rw [List.cons_append, follow_name still up, follow_name still up]
        split
        · exact (follow_fault rfl d qs).symm
        · exact ih _
    | missing | notDirectory | nameTooLong | nullInPath => exact (follow_fault rfl d qs).symm

theorem location?_placeOf (d : Disk) (l : String) : (d.placeOf l).location? = some l := by
  rw [placeOf]
  split
  · rfl
  · split <;> rfl

/-- Where a path ends is where its parts lead. -/
theorem location?_follow {d : Disk} {place : Place} {ps : List String} {l m : String}
    (start : place.location? = some l) (h : (d.follow place ps).location? = some m) :
    m = walk l ps := by
  induction ps generalizing place l with
  | nil => exact Option.some.inj (h.symm.trans start)
  | cons p ps ih =>
    cases place with
    | directory k =>
      cases start
      by_cases still : IsStill p
      · rw [follow_still still] at h
        rw [walk_still still]
        exact ih rfl h
      by_cases up : p = ".."
      · subst up
        exact ih rfl h
      · rw [follow_name still up] at h
        split at h
        · cases h
        · rw [walk_name still up]
          exact ih (location?_placeOf d _) h
    | vacant k =>
      cases start
      rw [follow] at h
      split at h
      · rename_i empty
        rw [walk_still (.inl (by simpa using empty))]
        exact ih rfl h
      · cases h
    | file k => cases h
    | missing | notDirectory | nameTooLong | nullInPath => cases start

theorem placeOf_directory {d : Disk} {l : String} (h : l ∈ d.directories) :
    d.placeOf l = .directory l := if_pos (List.contains_iff_mem.2 h)

theorem placeOf_file {d : Disk} {l : String} (h : l ∉ d.directories) {contents : Contents}
    (there : d.files.get? l = some contents) : d.placeOf l = .file l := by
  rw [placeOf, if_neg (by simpa using h), if_pos (by rw [Table.contains, there]; rfl)]

theorem placeOf_vacant {d : Disk} {l : String} (h : l ∉ d.directories)
    (free : d.files.get? l = none) : d.placeOf l = .vacant l := by
  rw [placeOf, if_neg (by simpa using h), if_neg (by rw [Table.contains, free]; simp)]

theorem exists_file_of_placeOf {d : Disk} {l m : String} (h : d.placeOf l = .file m) :
    ∃ contents, d.files.get? l = some contents := by
  rw [placeOf] at h
  split at h
  · cases h
  · split at h
    · rename_i there
      exact Option.isSome_iff_exists.1 there
    · cases h

theorem mem_of_placeOf {d : Disk} {l m : String} (h : d.placeOf l = .directory m) :
    l ∈ d.directories := by
  rw [placeOf] at h
  split at h
  · rename_i there
    exact List.contains_iff_mem.1 there
  · split at h <;> cases h

/-- From where nothing is no path leads to anything. -/
theorem follow_vacant (d : Disk) (l : String) (ps : List String) :
    d.follow (.vacant l) ps = .vacant l ∨ d.follow (.vacant l) ps = .missing := by
  induction ps with
  | nil => exact .inl rfl
  | cons p ps ih =>
    rw [follow]
    split
    · exact ih
    · exact .inr rfl

/-- Only from a directory does a path lead to a directory. -/
theorem exists_of_follow_eq_directory {d : Disk} {place : Place} {ps : List String} {m : String}
    (h : d.follow place ps = .directory m) : ∃ l, place = .directory l := by
  cases place with
  | directory l => exact ⟨l, rfl⟩
  | file l => cases ps <;> cases h
  | vacant l => rcases follow_vacant d l ps with stays | missing <;> simp_all
  | missing | notDirectory | nameTooLong | nullInPath =>
    rw [follow_fault rfl] at h
    cases h

/-- Directories that are there lead where they led however the disk has grown. -/
theorem follow_directory_mono {d d' : Disk} (kept : ∀ l ∈ d.directories, l ∈ d'.directories)
    {l m : String} {ps : List String} (h : d.follow (.directory l) ps = .directory m) :
    d'.follow (.directory l) ps = .directory m := by
  induction ps generalizing l with
  | nil => exact h
  | cons p ps ih =>
    by_cases still : IsStill p
    · rw [follow_still still] at h ⊢
      exact ih h
    by_cases up : p = ".."
    · subst up
      exact ih h
    · rw [follow_name still up] at h ⊢
      split
      · rename_i long
        rw [if_pos long] at h
        cases h
      · rename_i fits
        rw [if_neg fits] at h
        obtain ⟨k, place⟩ := exists_of_follow_eq_directory h
        have there := mem_of_placeOf place
        rw [placeOf_directory there] at h
        rw [placeOf_directory (kept _ there)]
        exact ih h

/-! ## Locating paths -/

/-- Where a path leads, by tests of its characters. -/
theorem locate_eq (d : Disk) (path : String) :
    d.locate path =
      if '\x00' ∈ (toPlain path).toList then .nullInPath
      else if toPlain path = "" then .missing
      else if longestPath < (toPlain path).utf8ByteSize then .nameTooLong
      else d.follow (.directory (if (toPlain path).toList.head? = some '/' then "" else d.here))
        (parts (toPlain path)) := by
  simp only [locate, startOf, startsWith_slash, String.contains_char_eq, decide_eq_true_eq,
    String.isEmpty_iff, beq_iff_eq]

/-- A path is refused on every disk, or located by its parts on every disk. -/
theorem locate_cases (path : String) :
    (∃ fault : Place, fault.location? = none ∧ ∀ d : Disk, d.locate path = fault)
      ∨ ∀ d : Disk, d.locate path
          = d.follow (.directory (d.startOf (toPlain path))) (parts (toPlain path)) := by
  simp only [locate]
  split
  · exact .inl ⟨.nullInPath, rfl, fun _ => rfl⟩
  · split
    · exact .inl ⟨.missing, rfl, fun _ => rfl⟩
    · split
      · exact .inl ⟨.nameTooLong, rfl, fun _ => rfl⟩
      · exact .inr fun _ => rfl

theorem location?_locate {d : Disk} {path l : String} (h : (d.locate path).location? = some l) :
    l = d.location path := by
  rcases locate_cases path with ⟨fault, none_there, all⟩ | all
  · rw [all d, none_there] at h
    cases h
  · rw [all d] at h
    exact location?_follow rfl h

end DepClause.Disk
