import DepClause.Proofs.Disk.Walk
import DepClause.Proofs.Table
import Mathlib.Data.List.Induction

/-!
# A name below a directory

The path of a name below a directory is in normal form. It leads where the name lies in the
directory, however the path of the directory is written, and it leads there as soon as the
directory is there. On a disk where everything lies in directories that is as soon as there is
anything at the name's location.
-/

namespace DepClause.Disk

open DepClause.Path Text

/-- A name of characters that are plain in every text. -/
structure IsPlainName (name : String) : Prop extends IsName name where
  small : ∀ c ∈ name.toList, c.toNat < 0x80

/-- The parts of the path to a name below a directory that come before the name. -/
def partsAbove (directory : String) : List String :=
  (if directory.startsWith "/" then [""] else [])
    ++ normalParts (directory.startsWith "/") [] (parts (toPlain directory))

theorem parts_toPlain_join (directory : String) {name : String} (hn : IsPlainName name) :
    parts (toPlain (join directory name)) = partsAbove directory ++ [name] := by
  have root : (if directory.startsWith "/" then [""] else []).map toPlain
      = if directory.startsWith "/" then [""] else [] := by
    split <;> rfl
  rw [parts_toPlain, parts_join directory hn.toIsName, List.map_append, List.map_append, root,
    map_normalParts, ← parts_toPlain, List.map_singleton,
    (toPlain_eq_iff hn.small).2 rfl, List.map_nil, partsAbove]

theorem startOf_join (d : Disk) (directory : String) {name : String} (hn : IsName name) :
    d.startOf (toPlain (join directory name)) = d.startOf (toPlain directory) := by
  rw [startOf, startOf, startsWith_toPlain, startsWith_toPlain, startsWith_join directory hn]

/-- The parts in normal form lead to the directory. -/
theorem walk_partsAbove (d : Disk) (directory : String) :
    walk (d.startOf (toPlain directory)) (partsAbove directory) = d.location directory := by
  have root : directory.startsWith "/" = true → d.startOf (toPlain directory) = "" := by
    intro root
    rw [startOf, startsWith_toPlain, root, if_pos rfl]
  have slashed : walk (d.startOf (toPlain directory))
      (if directory.startsWith "/" then [""] else []) = d.startOf (toPlain directory) := by
    split
    · rw [walk_still (.inl rfl), walk_nil]
    · rw [walk_nil]
  rw [partsAbove, walk_append, slashed, walk_normalParts root fun _ => slash_not_mem_parts,
    location]

/-- A name below a directory is the name at the location of the directory. -/
theorem location_join (d : Disk) (directory : String) {name : String} (hn : IsPlainName name) :
    d.location (join directory name) = child (d.location directory) name := by
  rw [location, startOf_join d directory hn.toIsName, parts_toPlain_join directory hn,
    walk_concat, walk_partsAbove, step_name hn.not_isStill hn.ne_up]

theorem location_congr {d e : Disk} (here : e.here = d.here) (path : String) :
    e.location path = d.location path := by
  rw [location, location, startOf, startOf, here]

/-! ## Following the path -/

section
variable {d e : Disk} {directory name : String}

/-- The path to a name is refused on every disk, or leads to the directory and from there to the
name. -/
theorem locate_join_cases (directory : String) {name : String} (hn : IsPlainName name) :
    (∃ fault : Place, fault.location? = none ∧ ∀ d : Disk, d.locate (join directory name) = fault)
      ∨ ∀ d : Disk, d.locate (join directory name)
          = d.follow (d.follow (.directory (d.startOf (toPlain directory))) (partsAbove directory))
              [name] := by
  rcases locate_cases (join directory name) with refused | followed
  · exact .inl refused
  · refine .inr fun d => ?_
    rw [followed d, startOf_join d directory hn.toIsName, parts_toPlain_join directory hn,
      follow_append]

/-- A name leads to a location from a directory only. -/
theorem follow_name_isSome {place : Place} (hn : IsName name)
    (led : (d.follow place [name]).location?.isSome) :
    ∃ l, place = .directory l ∧ ¬longestName < name.utf8ByteSize
      ∧ d.follow place [name] = d.placeOf (child l name) := by
  cases place with
  | directory l =>
    rw [follow_name hn.not_isStill hn.ne_up] at led ⊢
    split at led
    · cases led
    · rename_i fits
      exact ⟨l, rfl, fits, by rw [if_neg fits, follow_nil]⟩
  | vacant l =>
    rw [follow, if_neg (by simpa using hn.ne_empty)] at led
    cases led
  | file l => cases led
  | missing | notDirectory | nameTooLong | nullInPath => cases led

/-- Where the path to a name leads to a location, its directory is there. -/
theorem follow_partsAbove (hn : IsPlainName name)
    (led : (d.locate (join directory name)).location?.isSome) :
    d.follow (.directory (d.startOf (toPlain directory))) (partsAbove directory)
        = .directory (d.location directory)
      ∧ ¬longestName < name.utf8ByteSize := by
  rcases locate_join_cases directory hn with ⟨fault, nowhere, refused⟩ | followed
  · rw [refused d, nowhere] at led
    cases led
  · rw [followed d] at led
    obtain ⟨l, above, fits, -⟩ := follow_name_isSome hn.toIsName led
    have reached : l = d.location directory := by
      rw [← walk_partsAbove]
      exact location?_follow rfl (by rw [above]; rfl)
    exact ⟨reached ▸ above, fits⟩

/-- A directory that is there once is there on every disk that keeps the directories. -/
theorem locate_join (hn : IsPlainName name)
    (led : (d.locate (join directory name)).location?.isSome) (here : e.here = d.here)
    (above : e.follow (.directory (d.startOf (toPlain directory))) (partsAbove directory)
      = .directory (d.location directory)) :
    e.locate (join directory name) = e.placeOf (e.location (join directory name)) := by
  have start : e.startOf (toPlain directory) = d.startOf (toPlain directory) := by
    rw [startOf, startOf, here]
  have fits := (follow_partsAbove hn led).2
  rcases locate_join_cases directory hn with ⟨fault, nowhere, refused⟩ | followed
  · rw [refused d, nowhere] at led
    cases led
  · rw [followed e, start, above, follow_name hn.not_isStill hn.ne_up, if_neg fits,
      location_join e directory hn, location_congr here, follow_nil]

theorem locate_join_mono (hn : IsPlainName name)
    (led : (d.locate (join directory name)).location?.isSome) (here : e.here = d.here)
    (kept : ∀ l ∈ d.directories, l ∈ e.directories) :
    e.locate (join directory name) = e.placeOf (e.location (join directory name)) :=
  locate_join hn led here (follow_directory_mono kept (follow_partsAbove hn led).1)

/-- Where the path to a name below a path in normal form leads to a location, the path in normal
form leads to a directory. -/
theorem locate_above {base : String} (hb : IsName base) (hn : IsPlainName name)
    (led : (d.locate (join (join directory base) name)).location?.isSome) :
    ∃ l, d.locate (join directory base) = .directory l := by
  have start := startOf_join d (join directory base) hn.toIsName
  rw [join_join directory hb hn.toIsName] at led start
  have plain : toPlain (join directory base ++ "/" ++ name)
      = toPlain (join directory base) ++ "/" ++ name := by
    have pieces := toPlain_intercalate [join directory base, name]
    simpa [(toPlain_eq_iff hn.small).2 rfl] using pieces
  have some_part : toPlain (join directory base) ≠ "" := by
    intro empty
    have back := parts_join directory hb
    rw [(toPlain_eq_iff (by simp)).1 empty, parts_empty] at back
    have last := congrArg List.getLast? back
    rw [List.getLast?_singleton, List.getLast?_concat, Option.some.injEq] at last
    exact hb.ne_empty last.symm
  rw [plain] at start
  simp only [locate, plain, start, parts_append, parts_of_slash_free hn.slash] at led ⊢
  generalize toPlain (join directory base) = path at led some_part ⊢
  split at led
  · cases led
  rename_i no_null
  split at led
  · cases led
  split at led
  · cases led
  rename_i fits
  rw [follow_append] at led
  obtain ⟨l, above, -⟩ := follow_name_isSome hn.toIsName led
  have long : ¬longestPath < path.utf8ByteSize := by
    simp only [String.utf8ByteSize_append] at fits
    omega
  have no_null_above : ¬path.contains '\x00' = true := by
    simp only [String.contains_char_eq, String.toList_append, List.mem_append, decide_eq_true_eq,
      not_or] at no_null ⊢
    exact no_null.1.1
  exact ⟨l, by rw [if_neg no_null_above, if_neg (by simpa using some_part), if_neg long, above]⟩

end

/-! ## Nested disks -/

/-- Every file and every directory lies in a directory. -/
structure Nested (d : Disk) : Prop where
  directories : ∀ l ∈ d.directories, parent l ∈ d.directories
  files : ∀ file ∈ d.files, parent file.1 ∈ d.directories

section
variable {d e : Disk}

end

end DepClause.Disk
