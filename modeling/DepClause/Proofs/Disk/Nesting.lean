import DepClause.Proofs.Disk.Growth

/-!
# Disks stay nested

A path leads on from directories only, so what is made or written where it ends lies in one. A
disk on which everything lies in directories stays such a disk.
-/

namespace DepClause.Disk

open DepClause.Path Text

/-- A nested disk on which paths start at directories. -/
structure Rooted (d : Disk) : Prop extends d.Nested where
  root : "" ∈ d.directories
  here : d.here ∈ d.directories

/-- A place that a path can have reached: a directory that is there, something in one, or
nowhere. -/
inductive Place.IsIn (d : Disk) : Place → Prop where
  | directory {l : String} (there : l ∈ d.directories) : Place.IsIn d (.directory l)
  | file {l : String} (above : parent l ∈ d.directories) : Place.IsIn d (.file l)
  | vacant {l : String} (above : parent l ∈ d.directories) : Place.IsIn d (.vacant l)
  | nowhere {place : Place} (lost : place.location? = none) : Place.IsIn d place

variable {d : Disk}

theorem Place.IsIn.above {place : Place} {l : String} (h : place.IsIn d)
    (at_place : place = .file l ∨ place = .vacant l) : parent l ∈ d.directories := by
  rcases at_place with rfl | rfl
  · cases h with
    | file above => exact above
    | nowhere lost => cases lost
  · cases h with
    | vacant above => exact above
    | nowhere lost => cases lost

theorem isIn_placeOf {l p : String} (there : l ∈ d.directories) (slash : '/' ∉ p.toList) :
    (d.placeOf (child l p)).IsIn d := by
  have above : parent (child l p) ∈ d.directories := by
    rw [parent_child slash]
    exact there
  rw [placeOf]
  split
  · rename_i found
    exact .directory (List.contains_iff_mem.1 found)
  · split
    · exact .file above
    · exact .vacant above

theorem isIn_follow (rooted : d.Rooted) {place : Place} {ps : List String} (start : place.IsIn d)
    (slash : ∀ p ∈ ps, '/' ∉ p.toList) : (d.follow place ps).IsIn d := by
  induction ps generalizing place with
  | nil => exact start
  | cons p ps ih =>
    obtain ⟨free, rest⟩ := List.forall_mem_cons.1 slash
    cases start with
    | @directory l there =>
      by_cases still : IsStill p
      · rw [follow_still still]
        exact ih (.directory there) rest
      by_cases up : p = ".."
      · subst up
        exact ih (.directory (rooted.directories l there)) rest
      · rw [follow_name still up]
        split
        · exact .nowhere rfl
        · exact ih (isIn_placeOf there free) rest
    | vacant above =>
      rw [follow]
      split
      · exact ih (.vacant above) rest
      · exact .nowhere rfl
    | file above => exact .nowhere rfl
    | nowhere lost =>
      cases place with
      | directory | file | vacant => cases lost
      | missing | notDirectory | nameTooLong | nullInPath => exact .nowhere rfl

theorem isIn_locate (rooted : d.Rooted) (path : String) : (d.locate path).IsIn d := by
  rcases locate_cases path with ⟨fault, lost, refused⟩ | followed
  · rw [refused d]
    exact .nowhere lost
  · rw [followed d]
    have start : d.startOf (toPlain path) ∈ d.directories := by
      rw [startOf]
      split
      · exact rooted.root
      · exact rooted.here
    exact isIn_follow rooted (.directory start) fun _ => slash_not_mem_parts

theorem Rooted.write (rooted : d.Rooted) (path : String) (contents : Contents) :
    (d.write path contents).disk.Rooted := by
  have reached := isIn_locate rooted path
  have kept {l : String} (above : parent l ∈ d.directories) :
      ({ d with files := d.files.set l contents } : Disk).Rooted := by
    refine ⟨⟨rooted.directories, fun file there => ?_⟩, rooted.root, rooted.here⟩
    rcases Table.mem_set there with rfl | old
    · exact above
    · exact rooted.files file old
  rw [Disk.write]
  cases place : d.locate path with
  | file l => exact kept (reached.above (.inl place))
  | vacant l => exact kept (reached.above (.inr place))
  | directory | missing | notDirectory | nameTooLong | nullInPath => exact rooted

theorem Rooted.makeDirectory (rooted : d.Rooted) (isWhole : Bool) (path : String) :
    (d.makeDirectory isWhole path).disk.Rooted := by
  have reached := isIn_locate rooted path
  rw [Disk.makeDirectory]
  cases place : d.locate path with
  | vacant l =>
    refine ⟨⟨fun m there => ?_, fun file there => List.mem_append_left _ (rooted.files file there)⟩,
      List.mem_append_left _ rooted.root, List.mem_append_left _ rooted.here⟩
    rcases List.mem_append.1 there with old | made
    · exact List.mem_append_left _ (rooted.directories m old)
    · rw [List.mem_singleton.1 made]
      exact List.mem_append_left _ (reached.above (.inr place))
  | directory | file | missing | notDirectory | nameTooLong | nullInPath => exact rooted

theorem Rooted.andThen {ε : Type} {first : Changed ε} {next : Disk → Changed ε}
    (h : first.disk.Rooted) (on : ∀ e : Disk, e.Rooted → (next e).disk.Rooted) :
    (first.andThen next).disk.Rooted :=
  andThen_preserves h on

theorem Rooted.makeDirectories (rooted : d.Rooted) (path : String) :
    (d.makeDirectories path).disk.Rooted :=
  makeAlong_preserves (fun _ isWhole path h => h.makeDirectory isWhole path) rooted true _

end DepClause.Disk
