import DepClause.Proofs.Disk.Entry

/-!
# Making directories

Making directories leaves the files alone, whether it succeeds or stops on the way. Each directory
that it makes takes the place of nothing, lies at the end of a front part of the path, and is not
the location of a name below the whole path unless the path goes up again behind a part of that
name.
-/

namespace DepClause.Disk

open DepClause.Path Text

/-- A disk with further directories, and where these may be. -/
structure Grown (new : String → Prop) (d e : Disk) : Prop where
  files : e.files = d.files
  here : e.here = d.here
  kept : ∀ l ∈ d.directories, l ∈ e.directories
  made : ∀ l ∈ e.directories, l ∈ d.directories ∨ new l

theorem Grown.refl (new : String → Prop) (d : Disk) : Grown new d d :=
  ⟨rfl, rfl, fun _ => id, fun _ => .inl⟩

theorem Grown.trans {new : String → Prop} {d e f : Disk} (h : Grown new d e) (k : Grown new e f) :
    Grown new d f where
  files := k.files.trans h.files
  here := k.here.trans h.here
  kept l there := k.kept l (h.kept l there)
  made l there := (k.made l there).elim (h.made l) .inr

theorem Grown.mono {old new : String → Prop} (le : ∀ l, old l → new l) {d e : Disk}
    (h : Grown old d e) : Grown new d e :=
  { h with made := fun l there => (h.made l there).imp_right (le l) }

theorem grown_makeDirectory (d : Disk) (isWhole : Bool) (path : String) :
    Grown (fun l => d.locate path = .vacant l) d (d.makeDirectory isWhole path).disk := by
  rw [makeDirectory]
  cases place : d.locate path with
  | vacant l =>
    refine ⟨rfl, rfl, fun m there => List.mem_append_left _ there, fun m there => ?_⟩
    rcases List.mem_append.1 there with old | made
    · exact .inl old
    · exact .inr (congrArg _ (List.mem_singleton.1 made).symm)
  | directory | file | notDirectory | nameTooLong | nullInPath | missing => exact Grown.refl _ d

/-- A location where a front part of a path, its parts given with the last one first, found
nothing. -/
def Missed (here : String) (ps : List String) (l : String) : Prop :=
  ∃ (d : Disk) (qs : List String), d.here = here ∧ qs <:+ ps
    ∧ d.locate ("/".intercalate qs.reverse) = .vacant l

section
variable {d : Disk} {isWhole : Bool} {p q path : String} {ps : List String}

/-- Where a directory above a path is missing, the path without its last part is made first. -/
theorem makeAlong_of_missing (whole : "/".intercalate (p :: q :: ps).reverse = path)
    (h : d.locate path = .missing) :
    d.makeAlong isWhole (p :: q :: ps)
      = (d.makeAlong false (q :: ps)).andThen (·.makeDirectory isWhole path) := by
  subst whole
  exact if_pos h

theorem makeAlong_of_not_missing (whole : "/".intercalate (p :: q :: ps).reverse = path)
    (h : d.locate path ≠ .missing) :
    d.makeAlong isWhole (p :: q :: ps) = d.makeDirectory isWhole path := by
  subst whole
  exact if_neg h

end

/-- What changes preserve, a change and another one behind it preserve. -/
theorem andThen_preserves {ε : Type} {P : Disk → Prop} {first : Changed ε}
    {next : Disk → Changed ε} (h : P first.disk) (on : ∀ e : Disk, P e → P (next e).disk) :
    P (first.andThen next).disk := by
  rw [Changed.andThen]
  split
  · exact on _ h
  · exact h

/-- What making one directory preserves, making all directories of a path preserves. -/
theorem makeAlong_preserves {P : Disk → Prop}
    (one : ∀ (e : Disk) isWhole path, P e → P (e.makeDirectory isWhole path).disk) {d : Disk}
    (h : P d) (isWhole : Bool) (ps : List String) : P (d.makeAlong isWhole ps).disk := by
  induction ps generalizing isWhole with
  | nil => exact h
  | cons p ps ih =>
    cases ps with
    | nil => exact one d isWhole p h
    | cons q ps =>
      by_cases missing : d.locate ("/".intercalate (p :: q :: ps).reverse) = .missing
      · rw [makeAlong_of_missing rfl missing]
        exact andThen_preserves (ih false) fun e he => one e isWhole _ he
      · rw [makeAlong_of_not_missing rfl missing]
        exact one d isWhole _ h

theorem grown_makeAlong (d : Disk) (isWhole : Bool) (ps : List String) :
    Grown (Missed d.here ps) d (d.makeAlong isWhole ps).disk := by
  have whole (e : Disk) (here : e.here = d.here) (qs : List String) (isWhole : Bool) :
      Grown (Missed d.here qs) e (e.makeDirectory isWhole ("/".intercalate qs.reverse)).disk :=
    (grown_makeDirectory e isWhole _).mono fun l free => ⟨e, qs, here, List.suffix_refl qs, free⟩
  induction ps generalizing isWhole with
  | nil => exact Grown.refl _ d
  | cons p ps ih =>
    cases ps with
    | nil =>
      have one := whole d rfl [p] isWhole
      rwa [List.reverse_singleton, String.intercalate_singleton] at one
    | cons q ps =>
      by_cases missing : d.locate ("/".intercalate (p :: q :: ps).reverse) = .missing
      · rw [makeAlong_of_missing rfl missing]
        have front := (ih false).mono fun l ⟨e, qs, here, front, free⟩ =>
          (⟨e, qs, here, front.trans (List.suffix_cons p _), free⟩ : Missed d.here (p :: q :: ps) l)
        rw [Changed.andThen]
        split
        · exact front.trans (whole _ front.here _ isWhole)
        · exact front
      · rw [makeAlong_of_not_missing rfl missing]
        exact whole d rfl _ isWhole

theorem grown_makeDirectories (d : Disk) (path : String) :
    Grown (Missed d.here (parts path).reverse) d (d.makeDirectories path).disk :=
  grown_makeAlong d true _

/-! ## What stands in the way -/

theorem get?_of_placeOf_eq_vacant {d : Disk} {l m : String} (h : d.placeOf l = .vacant m) :
    d.files.get? m = none := by
  rw [placeOf] at h
  split at h
  · cases h
  · split at h
    · cases h
    · rename_i free
      cases h
      simpa [Table.contains] using free

theorem get?_of_follow_eq_vacant {d : Disk} {place : Place} {ps : List String} {l : String}
    (start : ∀ m, place = .vacant m → d.files.get? m = none)
    (h : d.follow place ps = .vacant l) : d.files.get? l = none := by
  induction ps generalizing place with
  | nil => exact start l h
  | cons p ps ih =>
    cases place with
    | directory k =>
      by_cases still : IsStill p
      · rw [follow_still still] at h
        exact ih start h
      by_cases up : p = ".."
      · subst up
        exact ih (fun m => Place.noConfusion) h
      · rw [follow_name still up] at h
        split at h
        · cases h
        · exact ih (fun m => get?_of_placeOf_eq_vacant) h
    | vacant k =>
      rw [follow] at h
      split at h
      · exact ih start h
      · cases h
    | file | missing | notDirectory | nameTooLong | nullInPath => cases h

/-- Where a path ends at nothing, no file is there. -/
theorem get?_of_locate_eq_vacant {d : Disk} {path l : String} (h : d.locate path = .vacant l) :
    d.files.get? l = none := by
  rcases locate_cases path with ⟨fault, nowhere, refused⟩ | followed
  · rw [refused d] at h
    rw [h] at nowhere
    cases nowhere
  · rw [followed d] at h
    exact get?_of_follow_eq_vacant (fun m => Place.noConfusion) h

/-- No directory takes the place of a file. -/
theorem grown_free_makeDirectories (d : Disk) (path : String) :
    Grown (fun l => d.files.get? l = none) d (d.makeDirectories path).disk := by
  refine makeAlong_preserves (fun e isWhole path grown => ?_) (Grown.refl _ d) true _
  refine grown.trans ((grown_makeDirectory e isWhole path).mono fun l free => ?_)
  rw [← grown.files]
  exact get?_of_locate_eq_vacant free

/-! ## Files that stay -/

section
variable {d e : Disk} (grown : Grown (fun l => d.files.get? l = none) d e)
include grown

theorem placeOf_file_grown {l m : String} (h : d.placeOf l = .file m) : e.placeOf l = .file m := by
  obtain ⟨contents, there⟩ := exists_file_of_placeOf h
  have free : l ∉ e.directories := by
    intro directory
    rcases grown.made l directory with old | new
    · rw [placeOf_directory old] at h
      cases h
    · rw [there] at new
      cases new
  have same : m = l := by
    have located := location?_placeOf d l
    rw [h] at located
    exact Option.some.inj located
  rw [← grown.files] at there
  rw [placeOf_file free there, same]

/-- A path that leads to a file leads there still: the directories on its way are kept, and none
takes the place of the file. -/
theorem follow_file_grown {l m : String} {ps : List String}
    (h : d.follow (.directory l) ps = .file m) : e.follow (.directory l) ps = .file m := by
  induction ps generalizing l with
  | nil => cases h
  | cons p ps ih =>
    by_cases still : IsStill p
    · rw [follow_still still] at h ⊢
      exact ih h
    by_cases up : p = ".."
    · subst up
      exact ih h
    · rw [follow_name still up] at h ⊢
      split
      · rename_i long
        rw [if_pos long] at h
        cases h
      · rename_i fits
        rw [if_neg fits] at h
        cases place : d.placeOf (child l p) with
        | directory k =>
          have there := mem_of_placeOf place
          rw [placeOf_directory there] at h
          rw [placeOf_directory (grown.kept _ there)]
          exact ih h
        | file k =>
          rw [place] at h
          rw [placeOf_file_grown grown place]
          cases ps with
          | nil => exact h
          | cons q ps => cases h
        | vacant k =>
          rw [place] at h
          rcases follow_vacant d k ps with stays | missing <;> simp_all
        | missing | notDirectory | nameTooLong | nullInPath =>
          have located := location?_placeOf d (child l p)
          rw [place] at located
          cases located

theorem locate_file_grown {path l : String} (h : d.locate path = .file l) :
    e.locate path = .file l := by
  rcases locate_cases path with ⟨fault, nowhere, refused⟩ | followed
  · rw [refused e, ← refused d, h]
  · rw [followed d] at h
    rw [followed e, startOf, grown.here, ← startOf]
    exact follow_file_grown grown h

theorem read_grown {path : String} {contents : Contents} (h : d.read path = .ok contents) :
    e.read path = .ok contents := by
  rw [read] at h
  split at h
  · rename_i l place
    rw [read, locate_file_grown grown place]
    dsimp only
    rw [grown.files]
    exact h
  all_goals cases h

end

/-! ## Making one directory -/

/-- Where no directory above a path is missing, only the path itself is made. -/
theorem makeDirectories_of_not_missing {d : Disk} {path : String}
    (h : d.locate path ≠ .missing) : d.makeDirectories path = d.makeDirectory true path := by
  have whole : "/".intercalate (parts path).reverse.reverse = path := by
    rw [List.reverse_reverse, intercalate_parts]
  rw [makeDirectories]
  cases back : (parts path).reverse with
  | nil => exact absurd back (by simp [parts_ne_nil])
  | cons p ps =>
    rw [back] at whole
    cases ps with
    | nil =>
      rw [List.reverse_singleton, String.intercalate_singleton] at whole
      rw [makeAlong, whole]
    | cons q ps => rw [makeAlong_of_not_missing whole h]

/-- A directory that is there is not made again. -/
theorem makeDirectories_of_directory {d : Disk} {path l : String}
    (there : d.locate path = .directory l) : d.makeDirectories path = .done d := by
  rw [makeDirectories_of_not_missing (by rw [there]; exact Place.noConfusion), makeDirectory, there]

theorem makeDirectories_of_vacant {d : Disk} {path l : String} (free : d.locate path = .vacant l) :
    d.makeDirectories path = .done { d with directories := d.directories ++ [l] } := by
  rw [makeDirectories_of_not_missing (by rw [free]; exact Place.noConfusion), makeDirectory, free]

/-! ## What is not made -/

theorem eq_of_follow_vacant {d : Disk} {l m : String} {ps : List String}
    (h : d.follow (.vacant l) ps = .vacant m) : m = l := by
  rcases follow_vacant d l ps with stays | missing
  · exact (Place.vacant.inj (stays.symm.trans h)).symm
  · rw [missing] at h
    cases h

/-- Where a path ends at nothing, nothing is found at a name of it, at the last one. -/
theorem exists_of_follow_eq_vacant {d : Disk} {l m : String} {ps : List String}
    (h : d.follow (.directory l) ps = .vacant m) :
    ∃ front p back, ps = front ++ p :: back ∧ m = child (walk l front) p := by
  induction ps generalizing l with
  | nil => cases h
  | cons p ps ih =>
    by_cases still : IsStill p
    · rw [follow_still still] at h
      obtain ⟨front, q, back, rfl, rfl⟩ := ih h
      exact ⟨p :: front, q, back, rfl, by rw [walk_still still]⟩
    by_cases up : p = ".."
    · subst up
      obtain ⟨front, q, back, rfl, rfl⟩ := ih h
      exact ⟨".." :: front, q, back, rfl, rfl⟩
    · rw [follow_name still up] at h
      split at h
      · cases h
      · have located := location?_placeOf d (child l p)
        cases place : d.placeOf (child l p) with
        | directory k =>
          rw [place] at h located
          cases located
          obtain ⟨front, q, back, rfl, rfl⟩ := ih h
          exact ⟨p :: front, q, back, rfl, by rw [walk_name still up]⟩
        | vacant k =>
          rw [place] at h located
          cases located
          exact ⟨[], p, ps, rfl, eq_of_follow_vacant h⟩
        | file k =>
          rw [place] at h
          cases ps <;> cases h
        | missing | notDirectory | nameTooLong | nullInPath =>
          rw [place] at located
          cases located

theorem locate_empty (d : Disk) : d.locate "" = .missing := by
  rw [locate_eq, if_neg (by decide), if_pos (by decide)]

/-- A front part of a path that names anything starts where the whole path does. -/
theorem startOf_front {d e : Disk} (here : e.here = d.here) {path : String} {ps rest : List String}
    (split : parts path = ps ++ rest) (names : "/".intercalate ps ≠ "") :
    e.startOf (toPlain ("/".intercalate ps)) = d.startOf (toPlain path)
      ∧ parts ("/".intercalate ps) = ps := by
  have back : parts ("/".intercalate ps) = ps := by
    refine parts_intercalate (fun none_given => names (by rw [none_given]; rfl)) fun p hp => ?_
    have part : p ∈ parts path := split ▸ List.mem_append_left rest hp
    exact slash_not_mem_parts part
  refine ⟨?_, back⟩
  have root : ("/".intercalate ps).startsWith "/" = path.startsWith "/" := by
    rw [Bool.eq_iff_iff, startsWith_slash_iff, startsWith_slash_iff, back, split]
    rcases ps with _ | ⟨p, _ | ⟨q, ps⟩⟩
    · exact absurd rfl names
    · have named : p ≠ "" := names
      simp [named]
    · simp
  rw [startOf, startOf, startsWith_toPlain, startsWith_toPlain, root, here]

/-- The location of a name below a directory is not made with the directory, if the path of the
directory does not go up again behind a part of that name. -/
theorem location_not_made {d : Disk} {directory name : String} (hn : IsPlainName name)
    (onward : (parts directory).Pairwise fun p q => ¬(p = name ∧ q = ".."))
    (free : d.location (join directory name) ∉ d.directories) :
    d.location (join directory name) ∉ (d.makeDirectories directory).disk.directories := by
  intro there
  rcases (grown_makeDirectories d directory).made _ there with old | ⟨e, qs, here, front, missed⟩
  · exact free old
  obtain ⟨rest, split⟩ := List.reverse_prefix.2 front
  rw [List.reverse_reverse] at split
  have names : "/".intercalate qs.reverse ≠ "" := by
    intro empty
    rw [empty, locate_empty] at missed
    cases missed
  obtain ⟨start, back⟩ := startOf_front here split.symm names
  -- the path of the directory goes on behind the part that found nothing
  have found : ∃ before p after, parts (toPlain directory) = before ++ p :: after
      ∧ d.location (join directory name)
        = child (walk (d.startOf (toPlain directory)) before) p := by
    rcases locate_cases ("/".intercalate qs.reverse) with ⟨fault, nowhere, refused⟩ | followed
    · rw [refused e] at missed
      rw [missed] at nowhere
      cases nowhere
    · rw [followed e, start, parts_toPlain, back] at missed
      obtain ⟨before, p, after, cut, location⟩ := exists_of_follow_eq_vacant missed
      refine ⟨before, p, after ++ rest.map toPlain, ?_, location⟩
      rw [parts_toPlain, ← split, List.map_append, cut, List.append_assoc, List.cons_append]
  obtain ⟨before, p, after, cut, location⟩ := found
  have slash : '/' ∉ p.toList :=
    slash_not_mem_parts (cut ▸ List.mem_append_right before List.mem_cons_self)
  obtain ⟨below, rfl⟩ : d.location directory = walk (d.startOf (toPlain directory)) before
      ∧ name = p := by
    rw [location_join d directory hn] at location
    exact child_inj hn.slash slash location
  have no_up : ".." ∉ after := by
    intro up
    have plain : ((parts directory).map toPlain).Pairwise fun p q => ¬(p = name ∧ q = "..") := by
      rw [List.pairwise_map]
      refine onward.imp fun {q r} apart => ?_
      rwa [toPlain_eq_iff hn.small, toPlain_eq_iff (by simp)]
    rw [← parts_toPlain, cut, List.pairwise_append, List.pairwise_cons] at plain
    exact plain.2.1.1 ".." up ⟨rfl, rfl⟩
  -- so the directory would lie in itself
  have grows := length_le_walk no_up (child (d.location directory) name)
  have whole : d.location directory = walk (child (d.location directory) name) after := by
    calc d.location directory
        = walk (walk (d.startOf (toPlain directory)) before) (name :: after) := by
          rw [Disk.location, cut, walk_append]
      _ = walk (child (d.location directory) name) after := by
          rw [walk_name hn.not_isStill hn.ne_up, below]
  rw [← whole, child] at grows
  simp only [String.length_append] at grows
  have slash_length : "/".length = 1 := rfl
  omega

end DepClause.Disk
