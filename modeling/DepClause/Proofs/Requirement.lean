import DepClause.Proofs.Marker.Grammar
import DepClause.Proofs.Specifier.Spacing
import DepClause.Requirement

/-!
# Requirements as they are written

A requirement text has its parts in a fixed order with blanks between them. It is cut at the end of
the longest name, the first closing bracket and the first semicolon. Each cut lies between two
parts, so that the parts are read back from any text that is put together from them, whatever blanks
stand between them and whether or not parentheses are around the specifiers.
-/

namespace DepClause.Requirement

/-! ## Names -/

/-- The name of a package or of an extra. -/
structure IsName (s : List Char) : Prop where
  chars : ∀ c ∈ s, isNameChar c = true
  first : ∃ c ∈ s.head?, c.isAlphanum = true
  last : ∃ c ∈ s.getLast?, c.isAlphanum = true

theorem not_isBlank_of_isNameChar {c : Char} (h : isNameChar c = true) :
    Text.isBlank c = false := by
  simp only [isNameChar, Bool.or_eq_true, beq_iff_eq] at h
  rcases h with ((h | rfl) | rfl) | rfl
  · exact Text.not_isBlank_of_isAlphanum h
  · rfl
  · rfl
  · rfl

/-- A name is found where no character stands behind it that goes on with it. -/
theorem frontName_append {name rest : List Char} (h : IsName name)
    (hr : Text.Clear isNameChar rest) : frontName (name ++ rest) = name := by
  obtain ⟨c, head, hc⟩ := h.first
  obtain ⟨d, last, hd⟩ := h.last
  obtain ⟨cs, rfl⟩ := List.head?_eq_some_iff.1 head
  have taken : (c :: cs ++ rest).takeWhile isNameChar = c :: cs := Text.takeWhile_append h.chars hr
  have kept : Text.Clear (!·.isAlphanum) (c :: cs).reverse := by
    intro e he
    rw [List.head?_reverse, last] at he
    obtain rfl := Option.some.inj he
    simp [hd]
  rw [List.cons_append] at taken ⊢
  rw [frontName, if_pos hc, taken, kept.dropWhile, List.reverse_reverse]

theorem isName_of_frontName {s : List Char} (hs : s ≠ []) (h : frontName s = s) : IsName s := by
  obtain ⟨c, cs, rfl⟩ := List.exists_cons_of_ne_nil hs
  rw [frontName] at h
  split at h
  · next hc =>
    have turned := congrArg List.reverse h
    rw [List.reverse_reverse] at turned
    refine ⟨?_, ⟨c, rfl, hc⟩, ?_⟩
    · intro d hd
      have kept : d ∈ ((c :: cs).takeWhile isNameChar).reverse := by
        apply (List.dropWhile_sublist _).subset
        rw [turned]
        exact List.mem_reverse.2 hd
      exact List.all_eq_true.1 List.all_takeWhile d (List.mem_reverse.1 kept)
    · have stop : Text.Clear (!·.isAlphanum) (c :: cs).reverse := by
        rw [← turned]
        exact Text.clear_dropWhile _ _
      refine ⟨(c :: cs).getLast hs, List.getLast?_eq_some_getLast hs, ?_⟩
      rw [← Bool.not_eq_false']
      apply stop
      rw [List.head?_reverse]
      exact List.getLast?_eq_some_getLast hs
  · cases h

theorem isName_iff {s : List Char} : isName s = true ↔ IsName s := by
  rw [isName, Bool.and_eq_true, Bool.not_eq_true', List.isEmpty_eq_false_iff, beq_iff_eq]
  constructor
  · rintro ⟨hs, h⟩
    exact isName_of_frontName hs h
  · intro h
    have whole := frontName_append h (Text.clear_nil _)
    rw [List.append_nil] at whole
    obtain ⟨c, head, _⟩ := h.first
    refine ⟨?_, whole⟩
    rintro rfl
    cases head

instance (s : List Char) : Decidable (IsName s) := decidable_of_iff _ isName_iff

/-! ## The parts -/

/-- What can start, up to blanks, where the name and the extras end. -/
def openers : List Char := '(' :: ';' :: Specifier.openers

section
variable {text : String}

theorem mapM_isName {extras : List String} (h : ∀ e ∈ extras, IsName e.toList) :
    (extras.map String.toList).mapM (fun extra =>
        if isName extra then Except.ok (String.ofList extra)
        else Except.error (Failure.badRequirement text (.extra (String.ofList extra)))) =
      .ok extras := by
  refine mapM_map_eq_ok fun e he => ?_
  rw [if_pos (isName_iff.2 (h e he)), String.ofList_toList]

/-- The characters between the brackets are commas and characters of names. -/
theorem mem_joined {extras : List String} (h : ∀ e ∈ extras, IsName e.toList) {c : Char}
    (hc : c ∈ (",".intercalate extras).toList) : c = ',' ∨ isNameChar c = true := by
  rw [String.toList_intercalate] at hc
  rcases Text.mem_intercalate hc with rfl | ⟨l, hl, hcl⟩
  · exact .inl rfl
  · obtain ⟨e, he, rfl⟩ := List.mem_map.1 hl
    exact .inr ((h e he).chars c hcl)

theorem readExtras_joined {extras : List String} (h : ∀ e ∈ extras, IsName e.toList) :
    readExtras text (",".intercalate extras).toList = .ok extras := by
  cases extras with
  | nil => rfl
  | cons e es =>
    have unblank : Text.trim (",".intercalate (e :: es)).toList =
        (",".intercalate (e :: es)).toList := by
      apply Text.trim_of_not_blank
      intro c hc
      rcases mem_joined h hc with rfl | hc
      · rfl
      · exact not_isBlank_of_isNameChar hc
    have parts : (",".intercalate (e :: es)).toList.splitOn ',' = (e :: es).map String.toList := by
      rw [String.toList_intercalate]
      apply List.splitOn_intercalate
      · intro l hl comma
        obtain ⟨f, hf, rfl⟩ := List.mem_map.1 hl
        cases (h f hf).chars ',' comma
      · simp
    have whole : ((e :: es).map String.toList).map Text.trim = (e :: es).map String.toList := by
      rw [List.map_map]
      apply List.map_congr_left
      intro f hf
      exact Text.trim_of_not_blank fun c hc => not_isBlank_of_isNameChar ((h f hf).chars c hc)
    unfold readExtras
    split
    · next empty =>
      rw [← unblank, empty, List.splitOn_nil, List.map_cons] at parts
      obtain ⟨c, head, _⟩ := (h e List.mem_cons_self).first
      rw [← (List.cons.inj parts).1] at head
      cases head
    · rw [unblank, parts, whole]
      exact mapM_isName h

theorem splitExtras_joined {extras : List String} (h : ∀ e ∈ extras, IsName e.toList)
    (rest : List Char) :
    splitExtras text ('[' :: ((",".intercalate extras).toList ++ ']' :: rest)) =
      .ok (extras, Text.trimLeft rest) := by
  have inside : ']' ∉ (",".intercalate extras).toList := by
    intro mem
    rcases mem_joined h mem with h | h <;> cases h
  simp only [splitExtras, Text.splitFirst?_append_cons inside, readExtras_joined h]
  rfl

theorem splitExtras_absent {s : List Char} (h : s.head? ≠ some '[') :
    splitExtras text s = .ok ([], s) := by
  unfold splitExtras
  split
  · exact absurd rfl h
  · rfl

theorem readVersions_congr {part other : List Char} (h : Text.trim part = Text.trim other) :
    readVersions text part = readVersions text other := by
  rw [readVersions, h, readVersions]

theorem readVersions_bare {versions : String} {specifiers : List Specifier}
    (h : Specifier.parseAll versions = .ok specifiers) :
    readVersions text versions.toList = .ok specifiers := by
  have bare : (Text.trim versions.toList).head? ≠ some '(' :=
    (Specifier.opensWith_of_parseAll h).head?_trim rfl (by decide)
  rw [← Specifier.parseAll_trim, trim] at h
  unfold readVersions
  split
  · next inner enclosed =>
    rw [enclosed] at bare
    exact absurd rfl bare
  · exact h

theorem readVersions_enclosed (versions : String) :
    readVersions text ('(' :: (versions.toList ++ [')'])) = Specifier.parseAll versions := by
  have ends : Text.trim ('(' :: (versions.toList ++ [')'])) =
      '(' :: (versions.toList ++ [')']) := by
    rw [Text.trim_cons rfl, Text.trimRight_append_cons rfl]
    rfl
  simp only [readVersions, ends, List.getLast?_concat, List.dropLast_concat, String.ofList_toList]

theorem readTarget_marked {part rest : List Char} {specifiers : List Specifier}
    (hs : ';' ∉ part) (ha : (part ++ ';' :: rest).head? ≠ some '@')
    (hv : readVersions text part = .ok specifiers) :
    readTarget text (part ++ ';' :: rest) = .ok (none, specifiers, some rest) := by
  unfold readTarget
  split
  · next address =>
    rw [address] at ha
    exact absurd rfl ha
  · simp only [Text.splitFirst?_append_cons hs, hv]
    rfl

theorem readTarget_unmarked {part : List Char} {specifiers : List Specifier}
    (hs : ';' ∉ part) (ha : part.head? ≠ some '@')
    (hv : readVersions text part = .ok specifiers) :
    readTarget text part = .ok (none, specifiers, none) := by
  unfold readTarget
  split
  · exact absurd rfl ha
  · simp only [Text.splitFirst?_eq_none hs, hv]
    rfl

theorem parse_of_parts {name tail rest : List Char} {extras : List String}
    {specifiers : List Specifier} {part : Option (List Char)} {marker : Option Marker}
    (hs : Text.trim text.toList = name ++ tail) (hn : IsName name)
    (ht : Text.Clear isNameChar tail)
    (he : splitExtras text (Text.trimLeft tail) = .ok (extras, rest))
    (hr : readTarget text rest = .ok (none, specifiers, part))
    (hm : (part.map fun m => String.ofList (Text.trim m)).mapM Marker.parse = .ok marker) :
    parse text = .ok
      { name := String.ofList name, extras, specifiers, url := none, marker,
        markerText := part.map fun m => String.ofList (Text.trim m) } := by
  have named : name.isEmpty = false := by
    obtain ⟨c, head, _⟩ := hn.first
    obtain ⟨cs, rfl⟩ := List.head?_eq_some_iff.1 head
    rfl
  cases part with
  | none =>
    cases hm
    simp only [parse, hs, frontName_append hn ht, named, List.drop_left, he, bind, Except.bind, hr]
    rfl
  | some m =>
    obtain ⟨tree, read, rfl⟩ := mapM_some_eq_ok_iff.1 hm
    have written : (String.ofList (Text.trim m)).isEmpty = false :=
      String.isEmpty_eq_false_iff.2 (Marker.ne_empty_of_parse read)
    simp only [parse, hs, frontName_append hn ht, named, List.drop_left, he, bind, Except.bind, hr,
      written, read]
    rfl

end

/-! ## Whole requirements -/

abbrev Blanks := { s : List Char // Text.Blank s }

abbrev Name := { s : String // IsName s.toList }

/-- The parts of a requirement without an address, and the blanks around them. -/
structure Written where
  before : Blanks
  name : Name
  afterName : Blanks
  /-- The names in brackets, if there are brackets. -/
  extras : Option (List Name)
  afterExtras : Blanks
  versions : String
  /-- A semicolon would start the marker. -/
  noSemicolon : ';' ∉ versions.toList
  /-- Whether parentheses are around the specifiers. -/
  enclosed : Bool
  afterVersions : Blanks
  marker : Option String
  behind : Blanks

namespace Written

def extraNames (w : Written) : List String := (w.extras.getD []).map Subtype.val

def extrasPart (w : Written) : List Char :=
  if w.extras.isSome then '[' :: ((",".intercalate w.extraNames).toList ++ [']']) else []

def versionPart (w : Written) : List Char :=
  if w.enclosed then '(' :: (w.versions.toList ++ [')']) else w.versions.toList

def markerPart (w : Written) : List Char := w.marker.elim [] fun m => ';' :: m.toList

/-- The specifiers with the blanks next to them. -/
def spacedVersions (w : Written) : List Char :=
  w.afterExtras.1 ++ (w.versionPart ++ w.afterVersions.1)

/-- What stands behind the extras. -/
def target (w : Written) : List Char := w.spacedVersions ++ (w.markerPart ++ w.behind.1)

def text (w : Written) : String :=
  String.ofList
    (w.before.1 ++ (w.name.1.toList ++ (w.afterName.1 ++ (w.extrasPart ++ w.target))))

/-- Two ways to write a requirement, apart in blanks and parentheses at most. -/
structure SameParts (v w : Written) : Prop where
  name : v.name = w.name
  extras : v.extraNames = w.extraNames
  versions : trim v.versions = trim w.versions
  marker : v.marker.map trim = w.marker.map trim

variable {w : Written} {specifiers : List Specifier}

theorem opensWith_spacedVersions (hv : Specifier.parseAll w.versions = .ok specifiers) :
    Text.OpensWith openers w.spacedVersions := by
  have versions : Text.OpensWith openers w.versionPart := by
    unfold versionPart
    split
    · exact Text.opensWith_cons List.mem_cons_self _
    · exact (Specifier.opensWith_of_parseAll hv).mono fun c hc =>
        List.mem_append_right ['(', ';'] hc
  exact .append (.inl w.afterExtras.2) (versions.append (.inl w.afterVersions.2))

theorem not_mem_spacedVersions (w : Written) : ';' ∉ w.spacedVersions := by
  have versions : ';' ∉ w.versionPart := by
    unfold versionPart
    split <;> simp [w.noSemicolon]
  have visible : Text.isBlank ';' = false := rfl
  simp [spacedVersions, versions, w.afterExtras.2.not_mem visible,
    w.afterVersions.2.not_mem visible]

theorem readVersions_spaced {text : String}
    (hv : Specifier.parseAll w.versions = .ok specifiers) :
    readVersions text w.spacedVersions = .ok specifiers := by
  have read : readVersions text w.versionPart = .ok specifiers := by
    unfold versionPart
    split
    · rw [readVersions_enclosed, hv]
    · exact readVersions_bare hv
  rw [← read]
  apply readVersions_congr
  rw [spacedVersions, Text.trim_blank_append w.afterExtras.2,
    Text.trim_append_blank w.afterVersions.2]

theorem opensWith_target (hv : Specifier.parseAll w.versions = .ok specifiers) :
    Text.OpensWith openers w.target := by
  have marker : Text.OpensWith openers w.markerPart := by
    unfold markerPart
    cases w.marker with
    | none => exact .inl Text.blank_nil
    | some m => exact Text.opensWith_cons (by decide) _
  exact (opensWith_spacedVersions hv).append (marker.append (.inl w.behind.2))

theorem readTarget_target {text : String} (hv : Specifier.parseAll w.versions = .ok specifiers) :
    readTarget text (Text.trim w.target) =
      .ok (none, specifiers, w.marker.map fun m => Text.trimRight (m.toList ++ w.behind.1)) := by
  have bare : (Text.trim w.target).head? ≠ some '@' :=
    (opensWith_target hv).head?_trim rfl (by decide)
  unfold target markerPart at bare ⊢
  cases hm : w.marker with
  | none =>
    rw [hm, Option.elim_none, List.nil_append, Text.trim_append_blank w.behind.2] at bare
    rw [Option.elim_none, List.nil_append, Text.trim_append_blank w.behind.2]
    apply readTarget_unmarked
    · intro mem
      exact w.not_mem_spacedVersions (Text.mem_of_mem_trim mem)
    · exact bare
    · rw [readVersions_congr (Text.trim_trim _), readVersions_spaced hv]
  | some m =>
    rw [hm, Option.elim_some, List.cons_append, Text.trim_append_cons rfl] at bare
    rw [Option.elim_some, List.cons_append, Text.trim_append_cons rfl]
    apply readTarget_marked
    · intro mem
      exact w.not_mem_spacedVersions ((List.dropWhile_sublist _).subset mem)
    · exact bare
    · rw [readVersions_congr (Text.trim_trimLeft _), readVersions_spaced hv]

theorem splitExtras_trim {text : String} (hv : Specifier.parseAll w.versions = .ok specifiers) :
    splitExtras text (Text.trim (w.afterName.1 ++ (w.extrasPart ++ w.target))) =
      .ok (w.extraNames, Text.trim w.target) := by
  have names : ∀ e ∈ w.extraNames, IsName e.toList := by
    intro e he
    obtain ⟨n, _, rfl⟩ := List.mem_map.1 he
    exact n.2
  rw [Text.trim_blank_append w.afterName.2, extrasPart]
  split
  · rw [List.cons_append, List.append_assoc, List.singleton_append, Text.trim_cons rfl,
      Text.trimRight_append_cons rfl, splitExtras_joined names, Text.trimLeft_trimRight]
  · next absent =>
    have none : w.extraNames = [] := by
      rw [extraNames, Option.not_isSome_iff_eq_none.1 absent]
      rfl
    rw [none, List.nil_append]
    exact splitExtras_absent ((opensWith_target hv).head?_trim rfl (by decide))

/-- The name does not go on behind its end. -/
theorem clear_behind_name (hv : Specifier.parseAll w.versions = .ok specifiers) :
    Text.Clear isNameChar
      (Text.trimRight (w.afterName.1 ++ (w.extrasPart ++ w.target))) := by
  have extras : Text.OpensWith ('[' :: openers) w.extrasPart := by
    unfold extrasPart
    split
    · exact Text.opensWith_cons List.mem_cons_self _
    · exact .inl Text.blank_nil
  have target : Text.OpensWith ('[' :: openers) w.target :=
    (opensWith_target hv).mono fun c hc => List.mem_cons_of_mem '[' hc
  have opens := Text.OpensWith.append (.inl w.afterName.2) (extras.append target)
  apply (opens.trimRight rfl).clear
  · intro c hc
    rw [Bool.eq_false_iff]
    intro name
    rw [not_isBlank_of_isNameChar name] at hc
    cases hc
  · rfl

theorem trim_text (w : Written) :
    Text.trim w.text.toList =
      w.name.1.toList ++ Text.trimRight (w.afterName.1 ++ (w.extrasPart ++ w.target)) := by
  obtain ⟨d, last, hd⟩ := w.name.2.last
  obtain ⟨ds, whole⟩ := List.getLast?_eq_some_iff.1 last
  have inside : ∀ c ∈ ds, isNameChar c = true := by
    intro c hc
    apply w.name.2.chars
    rw [whole]
    exact List.mem_append_left [d] hc
  have start : Text.Clear Text.isBlank ds :=
    fun c hc => not_isBlank_of_isNameChar (inside c (List.mem_of_mem_head? hc))
  rw [text, String.toList_ofList, Text.trim_blank_append w.before.2, whole, List.append_assoc,
    List.singleton_append, Text.trim_append_cons (Text.not_isBlank_of_isAlphanum hd),
    Text.trimLeft, start.dropWhile, List.append_assoc, List.singleton_append]

/-- The marker is trimmed before it is read, so it is the trimmed text that has to be one. -/
theorem parse_text {marker : Option Marker} (hv : Specifier.parseAll w.versions = .ok specifiers)
    (hm : (w.marker.map trim).mapM Marker.parse = .ok marker) :
    parse w.text = .ok
      { name := w.name.1, extras := w.extraNames, specifiers, url := none, marker,
        markerText := w.marker.map trim } := by
  have texts : (w.marker.map fun m => Text.trimRight (m.toList ++ w.behind.1)).map
      (fun part => String.ofList (Text.trim part)) = w.marker.map trim := by
    rw [Option.map_map]
    congr 1
    funext m
    rw [Function.comp_apply, Text.trim_trimRight, Text.trim_append_blank w.behind.2, trim]
  have whole := parse_of_parts w.trim_text w.name.2 (clear_behind_name hv)
    (Text.trimLeft_trimRight _ ▸ splitExtras_trim hv) (readTarget_target hv) (texts ▸ hm)
  rw [texts, String.ofList_toList] at whole
  exact whole

end Written

/-- **The parts of a requirement are read back from its text.** Where the specifiers and the marker
are texts that can be read on their own, the whole is read, with no address, with what they are read
as, and with the marker's own text up to the blanks at its ends. Other blanks, or parentheses around
the specifiers, make no other requirement. -/
theorem parse_recovers_parts {w : Written} {specifiers : List Specifier} {marker : Option Marker}
    (hv : Specifier.parseAll w.versions = .ok specifiers)
    (hm : w.marker.mapM Marker.parse = .ok marker) :
    parse w.text = .ok
        { name := w.name.1, extras := w.extraNames, specifiers, url := none, marker,
          markerText := w.marker.map trim } ∧
      ∀ v : Written, v.SameParts w → parse v.text = parse w.text := by
  have trimmed : (w.marker.map trim).mapM Marker.parse = .ok marker := by
    cases written : w.marker with
    | none =>
      rw [written] at hm
      exact hm
    | some m =>
      rw [written] at hm
      obtain ⟨tree, read, rfl⟩ := mapM_some_eq_ok_iff.1 hm
      exact mapM_some_eq_ok_iff.2 ⟨tree, Marker.parse_trim read, rfl⟩
  have whole := Written.parse_text hv trimmed
  refine ⟨whole, ?_⟩
  intro v same
  have versions : Specifier.parseAll v.versions = .ok specifiers := by
    rw [← Specifier.parseAll_trim, same.versions, Specifier.parseAll_trim, hv]
  rw [← same.marker] at trimmed
  rw [whole, Written.parse_text versions trimmed, same.name, same.extras, same.marker]

/-- Every part, with blanks in each place. -/
def spaced : Written where
  before := ⟨[' '], by decide⟩
  name := ⟨"urllib3", by decide⟩
  afterName := ⟨[' '], by decide⟩
  extras := some [⟨"socks", by decide⟩, ⟨"brotli", by decide⟩]
  afterExtras := ⟨[' '], by decide⟩
  versions := ">=1.21.1, <1.27"
  noSemicolon := by decide
  enclosed := true
  afterVersions := ⟨['\t'], by decide⟩
  marker := some " python_version < '3.8; x'"
  behind := ⟨['\n'], by decide⟩

theorem parse_recovers_parts_of_spaced :
    spaced.text = " urllib3 [socks,brotli] (>=1.21.1, <1.27)\t; python_version < '3.8; x'\n" ∧
      parse spaced.text = .ok
        { name := "urllib3", extras := ["socks", "brotli"],
          specifiers := [⟨.atLeast, "1.21.1", false⟩, ⟨.less, "1.27", false⟩], url := none,
          marker := some (.comparison ⟨"python_version", .compare .less, "3.8; x", false⟩),
          markerText := some "python_version < '3.8; x'" } ∧
      parse { spaced with enclosed := false, afterName := ⟨[], by decide⟩ }.text =
        parse spaced.text := by
  have specifiers : Specifier.parseAll spaced.versions =
      .ok [⟨.atLeast, "1.21.1", false⟩, ⟨.less, "1.27", false⟩] :=
    eq_ok_of_toOption (by decide +kernel)
  have marker : spaced.marker.mapM Marker.parse =
      .ok (some (.comparison ⟨"python_version", .compare .less, "3.8; x", false⟩)) :=
    eq_ok_of_toOption (by decide +kernel)
  obtain ⟨whole, same⟩ := parse_recovers_parts specifiers marker
  refine ⟨by decide +kernel, ?_, ?_⟩
  · apply whole.trans
    apply congrArg Except.ok
    decide +kernel
  · exact same _ ⟨rfl, rfl, rfl, rfl⟩

/-! ## Where the marker stands -/

theorem infix_of_splitExtras {text : String} {s rest : List Char} {extras : List String}
    (h : splitExtras text s = .ok (extras, rest)) : rest <:+: s := by
  unfold splitExtras at h
  split at h
  · next inner =>
    split at h
    · next before behind cut =>
      obtain ⟨names, -, h⟩ := bind_eq_ok_iff.1 h
      cases h
      have whole : behind <:+ inner := by
        rw [Text.append_of_splitFirst? cut, List.append_cons]
        exact List.suffix_append _ _
      exact ((List.dropWhile_suffix _).isInfix).trans (whole.trans (List.suffix_cons _ _)).isInfix
    · cases h
  · cases h
    exact List.infix_rfl

theorem infix_of_readTarget {text : String} {s part : List Char} {url : Option String}
    {specifiers : List Specifier} (h : readTarget text s = .ok (url, specifiers, some part)) :
    ';' :: part <:+: s := by
  unfold readTarget at h
  split at h
  · next rest =>
    dsimp only at h
    split at h
    · cases h
    split at h
    · cases h
    · next marker after =>
      cases h
      rw [← after]
      refine (Text.trim_infix _).trans ?_
      refine (List.drop_suffix _ _).isInfix.trans ((List.dropWhile_suffix _).isInfix.trans ?_)
      exact (List.suffix_cons _ _).isInfix
    · cases h
  · split at h
    · next versions marker cut =>
      obtain ⟨read, -, h⟩ := bind_eq_ok_iff.1 h
      cases h
      rw [Text.append_of_splitFirst? cut]
      exact (List.suffix_append _ _).isInfix
    · obtain ⟨read, -, h⟩ := bind_eq_ok_iff.1 h
      cases h

/-- The marker of a requirement stands in it behind a semicolon. -/
theorem exists_marker_part {text : String} {r : Requirement} {m : Marker}
    (h : parse text = .ok r) (hm : r.marker = some m) :
    ∃ part, ';' :: part <:+: text.toList ∧
      Marker.parse (String.ofList (Text.trim part)) = .ok m := by
  unfold parse at h
  dsimp only at h
  split at h
  · cases h
  obtain ⟨⟨extras, rest⟩, front, h⟩ := bind_eq_ok_iff.1 h
  obtain ⟨⟨url, specifiers, part⟩, target, h⟩ := bind_eq_ok_iff.1 h
  cases part with
  | none =>
    cases h
    cases hm
  | some part =>
    dsimp only at h
    split at h
    · cases h
    obtain ⟨marker, read, h⟩ := bind_eq_ok_iff.1 h
    cases h
    cases hm
    refine ⟨part, ?_, read⟩
    have inside := (infix_of_readTarget target).trans (infix_of_splitExtras front)
    refine inside.trans ((List.dropWhile_suffix _).isInfix.trans ?_)
    exact (List.drop_suffix _ _).isInfix.trans (Text.trim_infix _)

end DepClause.Requirement
