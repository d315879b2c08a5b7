import DepClause.Proofs.Text
import DepClause.Version.Basic

/-!
# How versions are written

A `Spelling` is a text of the version grammar with its parts told apart:

    v? (N!)? N(.N)* (sep? phase sep? N?)? post? (sep? dev sep? N?)? (+local)?

where `post` is `-N` or `sep? (post|rev|r) sep? N?` and `local` has runs of letters and digits with
single separators between them. One text can have two spellings: the `-1` of `1.0a-1` may belong to
the alpha or be a post-release. In a settled spelling each label has taken the separator and the
digits behind it as its own number. `exists_settled` says that every text of the grammar has one.
-/

namespace DepClause

/-- One or more digits. -/
structure Digits where
  chars : List Char
  ne_nil : chars ≠ []
  isDigit : ∀ c ∈ chars, c.isDigit = true

def Digits.value (d : Digits) : Nat := Nat.ofDigitChars 10 d.chars 0

inductive Separator where
  | hyphen
  | underscore
  | point
  deriving DecidableEq, Repr

def Separator.char : Separator → Char
  | .hyphen => '-'
  | .underscore => '_'
  | .point => '.'

/-- The labels of the phases. -/
inductive PhaseWord where
  | alpha
  | a
  | beta
  | b
  | preview
  | pre
  | c
  | rc
  deriving DecidableEq, Repr

def PhaseWord.chars : PhaseWord → List Char
  | .alpha => ['a', 'l', 'p', 'h', 'a']
  | .a => ['a']
  | .beta => ['b', 'e', 't', 'a']
  | .b => ['b']
  | .preview => ['p', 'r', 'e', 'v', 'i', 'e', 'w']
  | .pre => ['p', 'r', 'e']
  | .c => ['c']
  | .rc => ['r', 'c']

def PhaseWord.phase : PhaseWord → Phase
  | .alpha | .a => .alpha
  | .beta | .b => .beta
  | .preview | .pre | .c | .rc => .candidate

/-- The labels of post-releases. -/
inductive PostWord where
  | post
  | rev
  | r
  deriving DecidableEq, Repr

def PostWord.chars : PostWord → List Char
  | .post => ['p', 'o', 's', 't']
  | .rev => ['r', 'e', 'v']
  | .r => ['r']

/-- The label of development versions. -/
inductive DevWord where
  | dev
  deriving DecidableEq, Repr

def DevWord.chars : DevWord → List Char
  | .dev => ['d', 'e', 'v']

/-- A label with an optional separator before it and an optional number behind it, which may stand
behind a separator, too. -/
structure Mark (ω : Type) where
  before : Option Separator
  label : ω
  behind : Option Separator
  number : Option Digits

/-- A post-release without a label, or with one. -/
inductive PostMark where
  | bare (number : Digits)
  | labelled (mark : Mark PostWord)

/-- One or more letters and digits. -/
structure LocalRun where
  chars : List Char
  ne_nil : chars ≠ []
  isAlphanum : ∀ c ∈ chars, c.isDigit = true ∨ c.isLower = true

/-- A part is a number if it is all digits. -/
def LocalRun.part (r : LocalRun) : LocalPart :=
  if r.chars.all Char.isDigit then .number (Nat.ofDigitChars 10 r.chars 0)
  else .word (String.ofList r.chars)

structure LocalRuns where
  first : LocalRun
  others : List (Separator × LocalRun)

def LocalRuns.runs (l : LocalRuns) : List LocalRun := l.first :: l.others.map Prod.snd

/-- A text of the grammar, in lower case, with its parts told apart. -/
structure Spelling where
  marked : Bool
  epoch : Option Digits
  release : Digits
  segments : List Digits
  pre : Option (Mark PhaseWord)
  post : Option PostMark
  dev : Option (Mark DevWord)
  localRuns : Option LocalRuns

/-! ## The text -/

def separatorChars : Option Separator → List Char
  | none => []
  | some s => [s.char]

def numberChars : Option Digits → List Char
  | none => []
  | some d => d.chars

def Mark.chars {ω : Type} (word : ω → List Char) (m : Mark ω) : List Char :=
  separatorChars m.before ++ (word m.label ++ (separatorChars m.behind ++ numberChars m.number))

def PostMark.chars : PostMark → List Char
  | .bare d => '-' :: d.chars
  | .labelled m => m.chars PostWord.chars

def LocalRuns.chars (l : LocalRuns) : List Char :=
  l.first.chars ++ l.others.flatMap fun x => x.1.char :: x.2.chars

def segmentChars (segments : List Digits) : List Char :=
  segments.flatMap fun d => '.' :: d.chars

/-! Each part is written in front of the rest of the text, or left out. -/

def markText {ω : Type} (word : ω → List Char) : Option (Mark ω) → List Char → List Char
  | none, rest => rest
  | some m, rest => m.chars word ++ rest

def postMarkText : Option PostMark → List Char → List Char
  | none, rest => rest
  | some p, rest => p.chars ++ rest

def epochMarkText : Option Digits → List Char → List Char
  | none, rest => rest
  | some d, rest => d.chars ++ '!' :: rest

def localMarkText : Option LocalRuns → List Char
  | none => []
  | some l => '+' :: l.chars

namespace Spelling

def localText (s : Spelling) : List Char := localMarkText s.localRuns

/-- The text from the development mark on. -/
def devText (s : Spelling) : List Char := markText DevWord.chars s.dev s.localText

/-- The text from the post-release on. -/
def postText (s : Spelling) : List Char := postMarkText s.post s.devText

/-- The text from the pre-release on. -/
def preText (s : Spelling) : List Char := markText PhaseWord.chars s.pre s.postText

def releaseText (s : Spelling) : List Char :=
  s.release.chars ++ (segmentChars s.segments ++ s.preText)

def epochText (s : Spelling) : List Char := epochMarkText s.epoch s.releaseText

def chars (s : Spelling) : List Char :=
  if s.marked then 'v' :: s.epochText else s.epochText

/-- Blanks at the ends and the case of ASCII letters do not count. -/
def Writes (s : Spelling) (text : String) : Prop :=
  (Text.trim text.toList).map Char.toLower = s.chars

end Spelling

/-! ## The version -/

/-- A missing number is zero. -/
def Mark.value {ω : Type} (m : Mark ω) : Nat :=
  match m.number with
  | none => 0
  | some d => d.value

def PostMark.value : PostMark → Nat
  | .bare d => d.value
  | .labelled m => m.value

def LocalRuns.parts (l : LocalRuns) : List LocalPart := l.runs.map LocalRun.part

def Spelling.version (s : Spelling) : Version where
  epoch := (s.epoch.map Digits.value).getD 0
  release := s.release.value :: s.segments.map Digits.value
  pre := s.pre.map fun m => ⟨m.label.phase, m.value⟩
  post := s.post.map PostMark.value
  dev := s.dev.map Mark.value
  localParts := s.localRuns.map LocalRuns.parts

/-! ## Settled spellings -/

/-- A label has taken what follows it: if a separator stands behind it, this is its own, and so are
all the digits behind that. -/
structure Mark.Takes {ω : Type} (m : Mark ω) (rest : List Char) : Prop where
  separator : m.behind = none → ∀ s : Separator, (numberChars m.number ++ rest).head? ≠ some s.char
  digits : Text.Clear Char.isDigit rest

structure Spelling.Settled (s : Spelling) : Prop where
  pre : ∀ m, s.pre = some m → m.Takes s.postText
  post : ∀ m, s.post = some (.labelled m) → m.Takes s.devText
  dev : ∀ m, s.dev = some m → m.Takes s.localText

/-! ## Boundaries -/

theorem Separator.char_inj {s t : Separator} (h : s.char = t.char) : s = t := by
  cases s <;> cases t <;> first | rfl | cases h

/-- What may stand behind a number or a label: the end, a plus, another label, which begins with one
of the letters, or a post-release without a label. -/
inductive Boundary (letters : List Char) : List Char → Prop where
  | stop : Boundary letters []
  | plus (s : List Char) : Boundary letters ('+' :: s)
  | label (before : Option Separator) {c : Char} (h : c ∈ letters) (s : List Char) :
      Boundary letters (separatorChars before ++ c :: s)
  | bare {d : Char} (h : d.isDigit = true) (s : List Char) : Boundary letters ('-' :: d :: s)

theorem Boundary.mono {ls ms s : List Char} (h : Boundary ls s) (hm : ls ⊆ ms) : Boundary ms s := by
  cases h with
  | stop => exact .stop
  | plus s => exact .plus s
  | label before hc s => exact .label before (hm hc) s
  | bare hd s => exact .bare hd s

theorem Boundary.clear {ls s : List Char} (h : Boundary ls s) {p : Char → Bool}
    (letter : ∀ c ∈ ls, p c = false) (separator : ∀ s : Separator, p s.char = false)
    (plus : p '+' = false) : Text.Clear p s := by
  cases h with
  | stop => exact Text.clear_nil p
  | plus s => exact Text.clear_cons s plus
  | label before hc s =>
    cases before with
    | none => exact Text.clear_cons s (letter _ hc)
    | some b => exact Text.clear_cons _ (separator b)
  | bare hd s => exact Text.clear_cons _ (separator .hyphen)

/-- No number goes on behind a boundary. -/
theorem Boundary.clear_isDigit {ls s : List Char} (h : Boundary ls s)
    (letter : ∀ c ∈ ls, c.isDigit = false) : Text.Clear Char.isDigit s := by
  apply h.clear letter _ rfl
  intro b
  cases b <;> rfl

/-- Nor does a release: behind a point stands a label. -/
theorem Boundary.clear_of_point {ls s : List Char} (h : Boundary ls ('.' :: s))
    (letter : ∀ c ∈ ls, c.isDigit = false ∧ c ≠ '.') : Text.Clear Char.isDigit s := by
  generalize hs : '.' :: s = t at h
  cases h with
  | stop => cases hs
  | plus u => cases hs
  | bare hd u => cases hs
  | label before hc u =>
    cases before with
    | none => exact absurd (List.cons.inj hs).1.symm (letter _ hc).2
    | some b =>
      rw [(List.cons.inj hs).2]
      exact Text.clear_cons u (letter _ hc).1

theorem PhaseWord.exists_cons (l : PhaseWord) :
    ∃ c cs, l.chars = c :: cs ∧ c ∈ ['a', 'b', 'c', 'p', 'r'] := by
  cases l <;> exact ⟨_, _, rfl, by decide⟩

theorem PostWord.exists_cons (l : PostWord) : ∃ c cs, l.chars = c :: cs ∧ c ∈ ['p', 'r'] := by
  cases l <;> exact ⟨_, _, rfl, by decide⟩

theorem DevWord.exists_cons (l : DevWord) : ∃ c cs, l.chars = c :: cs ∧ c ∈ ['d'] := by
  cases l
  exact ⟨_, _, rfl, by decide⟩

theorem Mark.boundary {ω : Type} {word : ω → List Char} {letters : List Char}
    (h : ∀ l, ∃ c cs, word l = c :: cs ∧ c ∈ letters) (m : Mark ω) (rest : List Char) :
    Boundary letters (m.chars word ++ rest) := by
  obtain ⟨c, cs, hw, hc⟩ := h m.label
  rw [chars, hw, List.append_assoc, List.cons_append, List.cons_append]
  exact .label m.before hc _

theorem Digits.exists_cons (d : Digits) : ∃ c cs, d.chars = c :: cs ∧ c.isDigit = true := by
  obtain ⟨c, cs, hc⟩ := List.exists_cons_of_ne_nil d.ne_nil
  exact ⟨c, cs, hc, d.isDigit c (hc ▸ List.mem_cons_self)⟩

namespace Spelling

theorem localText_boundary (s : Spelling) : Boundary [] s.localText := by
  unfold localText localMarkText
  split
  · exact .stop
  · exact .plus _

theorem devText_boundary (s : Spelling) : Boundary ['d'] s.devText := by
  unfold devText markText
  split
  · exact s.localText_boundary.mono (by simp)
  · exact Mark.boundary DevWord.exists_cons _ _

theorem postText_boundary (s : Spelling) : Boundary ['d', 'p', 'r'] s.postText := by
  unfold postText postMarkText
  split
  · exact s.devText_boundary.mono (by simp)
  · next p _ =>
    cases p with
    | bare d =>
      obtain ⟨c, cs, hc, hd⟩ := d.exists_cons
      rw [PostMark.chars, hc]
      exact .bare hd _
    | labelled m => exact (Mark.boundary PostWord.exists_cons m _).mono (by simp)

theorem preText_boundary (s : Spelling) : Boundary ['a', 'b', 'c', 'd', 'p', 'r'] s.preText := by
  unfold preText markText
  split
  · exact s.postText_boundary.mono (by simp)
  · exact (Mark.boundary PhaseWord.exists_cons _ _).mono (by simp)

end Spelling

/-! ## Settling a spelling -/

theorem Digits.clear_append (d : Digits) {p : Char → Bool}
    (h : ∀ c, c.isDigit = true → p c = false) (rest : List Char) :
    Text.Clear p (d.chars ++ rest) := by
  obtain ⟨c, cs, hc, hd⟩ := d.exists_cons
  rw [hc]
  exact Text.clear_cons _ (h c hd)

theorem Digits.head_ne_separator (d : Digits) (rest : List Char) (s : Separator) :
    (d.chars ++ rest).head? ≠ some s.char := by
  obtain ⟨c, cs, hc, hd⟩ := d.exists_cons
  rw [hc]
  intro h
  obtain rfl : c = s.char := Option.some.inj h
  cases s <;> cases hd

/-- A label has taken what follows it, or a separator follows which it could take. -/
theorem Mark.takes_or {ω : Type} (m : Mark ω) {rest : List Char}
    (hd : Text.Clear Char.isDigit rest) :
    m.Takes rest ∨
      m.behind = none ∧ m.number = none ∧ ∃ s : Separator, ∃ t, rest = s.char :: t := by
  cases hb : m.behind with
  | some b => exact .inl ⟨fun h => by simp [hb] at h, hd⟩
  | none =>
    cases hn : m.number with
    | some d => exact .inl ⟨fun _ s => by rw [hn]; exact d.head_ne_separator rest s, hd⟩
    | none =>
      by_cases hs : ∃ s : Separator, rest.head? = some s.char
      · obtain ⟨s, hs⟩ := hs
        obtain ⟨t, ht⟩ := List.head?_eq_some_iff.1 hs
        exact .inr ⟨rfl, rfl, s, t, ht⟩
      · refine .inl ⟨fun _ s => ?_, hd⟩
        rw [hn]
        exact fun h => hs ⟨s, h⟩

/-- A label that has a separator before it can do without. -/
theorem Mark.chars_eq_cons {ω : Type} {word : ω → List Char} {letters : List Char}
    (h : ∀ l, ∃ c cs, word l = c :: cs ∧ c ∈ letters)
    (hl : letters.all Char.isLower = true) {m : Mark ω} {rest t : List Char} {s : Separator}
    (hm : m.chars word ++ rest = s.char :: t) :
    t = ({ m with before := none } : Mark ω).chars word ++ rest := by
  cases hb : m.before with
  | none =>
    obtain ⟨c, cs, hw, hc⟩ := h m.label
    rw [chars, hb, hw] at hm
    obtain rfl : c = s.char := (List.cons.inj hm).1
    have lower := List.all_eq_true.1 hl _ hc
    cases s <;> cases lower
  | some b =>
    rw [chars, hb] at hm
    exact (List.cons.inj hm).2.symm

/-- A separator behind a label without a number is its own, or stands before what follows. -/
theorem Mark.chars_take {ω : Type} (word : ω → List Char) {m : Mark ω} (hb : m.behind = none)
    (hn : m.number = none) (b : Separator) (t : List Char) :
    ({ m with behind := some b } : Mark ω).chars word ++ t = m.chars word ++ b.char :: t := by
  simp [chars, hb, hn, separatorChars, numberChars]

namespace Spelling

variable {s : Spelling} {b : Separator} {t : List Char}

theorem localText_ne_cons : s.localText ≠ b.char :: t := by
  unfold localText localMarkText
  split
  · exact List.cons_ne_nil _ _ ∘ Eq.symm
  · cases b <;> simp [Separator.char]

theorem devText_eq_cons (h : s.devText = b.char :: t) :
    ∃ m, s.dev = some m ∧
      t = ({ m with before := none } : Mark DevWord).chars DevWord.chars ++ s.localText := by
  cases hd : s.dev with
  | none =>
    rw [devText, hd] at h
    exact absurd h localText_ne_cons
  | some m =>
    rw [devText, hd] at h
    exact ⟨m, rfl, Mark.chars_eq_cons DevWord.exists_cons (by decide) h⟩

/-- What the pre-release, the post-release and the development mark write together is all that a
spelling says of them. -/
theorem chars_of_preText {pre : Option (Mark PhaseWord)} {post : Option PostMark}
    {dev : Option (Mark DevWord)} (h : { s with pre, post, dev }.preText = s.preText) :
    { s with pre, post, dev }.chars = s.chars := by
  simp only [chars, epochText, releaseText, h]

theorem dev_takes (s : Spelling) : ∀ m, s.dev = some m → m.Takes s.localText := by
  intro m _
  rcases m.takes_or (s.localText_boundary.clear_isDigit (by simp)) with h | ⟨_, _, b, t, h⟩
  · exact h
  · exact absurd h localText_ne_cons

/-- A post-release takes the separator before a development mark. -/
theorem exists_post_takes (s : Spelling) : ∃ t : Spelling, t.chars = s.chars ∧
    ∀ m, t.post = some (.labelled m) → m.Takes t.devText := by
  cases hpost : s.post with
  | none => exact ⟨s, rfl, fun m h => by simp [hpost] at h⟩
  | some p =>
    cases p with
    | bare d => exact ⟨s, rfl, fun m h => by simp [hpost] at h⟩
    | labelled m =>
      rcases m.takes_or (s.devText_boundary.clear_isDigit (by simp)) with h | ⟨hb, hn, b, t, h⟩
      · refine ⟨s, rfl, fun k hk => ?_⟩
        rw [hpost] at hk
        cases hk
        exact h
      · obtain ⟨d, _, ht⟩ := devText_eq_cons h
        let k : Mark PostWord := { m with behind := some b }
        let u : Spelling :=
          { s with post := some (.labelled k), dev := some { d with before := none } }
        have post : u.postText = s.postText :=
          calc
            u.postText = k.chars PostWord.chars ++ u.devText := rfl
            _ = m.chars PostWord.chars ++ b.char :: u.devText := Mark.chars_take _ hb hn b _
            _ = m.chars PostWord.chars ++ s.devText := by rw [h, ht]; rfl
            _ = s.postText := by rw [postText, hpost]; rfl
        refine ⟨u, chars_of_preText ?_, ?_⟩
        · show u.preText = s.preText
          rw [preText, preText, post]
        · intro l hl
          obtain rfl : k = l := PostMark.labelled.inj (Option.some.inj hl)
          exact ⟨fun h => by simp [k] at h, u.devText_boundary.clear_isDigit (by simp)⟩

theorem postText_eq_cons (h : s.postText = b.char :: t) :
    (∃ d, s.post = some (.bare d) ∧ b = .hyphen ∧ t = d.chars ++ s.devText) ∨
    (∃ m, s.post = some (.labelled m) ∧
      t = ({ m with before := none } : Mark PostWord).chars PostWord.chars ++ s.devText) ∨
    s.post = none ∧ s.devText = b.char :: t := by
  cases hp : s.post with
  | none =>
    rw [postText, hp] at h
    exact .inr (.inr ⟨rfl, h⟩)
  | some p =>
    rw [postText, hp] at h
    cases p with
    | bare d =>
      obtain ⟨hb, ht⟩ := List.cons.inj h
      exact .inl ⟨d, rfl, (Separator.char_inj (s := .hyphen) hb).symm, ht.symm⟩
    | labelled m =>
      exact .inr (.inl ⟨m, rfl, Mark.chars_eq_cons PostWord.exists_cons (by decide) h⟩)

theorem pre_takes {u : Spelling} {m k : Mark PhaseWord} (hs : s.pre = some m)
    (hu : u.pre = some k) (hk : k.behind ≠ none)
    (h : k.chars PhaseWord.chars ++ u.postText = m.chars PhaseWord.chars ++ s.postText) :
    u.preText = s.preText ∧ ∀ l, u.pre = some l → l.Takes u.postText := by
  constructor
  · rw [preText, preText, hs, hu]
    exact h
  · intro l hl
    obtain rfl : k = l := Option.some.inj (hu.symm.trans hl)
    exact ⟨fun h => absurd h hk, u.postText_boundary.clear_isDigit (by simp)⟩

/-- **Every text of the grammar has a settled spelling.** -/
theorem exists_settled (s : Spelling) : ∃ t : Spelling, t.chars = s.chars ∧ t.Settled := by
  obtain ⟨s, hs, post⟩ := s.exists_post_takes
  rw [← hs]
  clear hs
  cases hpre : s.pre with
  | none => exact ⟨s, rfl, fun m h => by simp [hpre] at h, post, s.dev_takes⟩
  | some m =>
    rcases m.takes_or (s.postText_boundary.clear_isDigit (by simp)) with h | ⟨hb, hn, b, t, h⟩
    · refine ⟨s, rfl, fun k hk => ?_, post, s.dev_takes⟩
      rw [hpre] at hk
      cases hk
      exact h
    · have take := Mark.chars_take PhaseWord.chars hb hn b
      rcases postText_eq_cons h with ⟨d, _, rfl, ht⟩ | ⟨p, hpost, ht⟩ | ⟨hpost, hdev⟩
      · -- `a-1`: the post-release becomes the number of the label
        let u : Spelling := { s with
          pre := some { m with behind := some .hyphen, number := some d }
          post := none }
        have number : ({ m with behind := some .hyphen, number := some d } : Mark PhaseWord).chars
            PhaseWord.chars ++ u.postText = m.chars PhaseWord.chars ++ s.postText := by
          rw [h, ht, ← take]
          simp only [Mark.chars, hn, numberChars, List.append_assoc, List.nil_append]
          rfl
        obtain ⟨text, takes⟩ := pre_takes (u := u) hpre rfl (by simp) number
        exact ⟨u, chars_of_preText text, takes, fun l hl => (by cases hl), u.dev_takes⟩
      · let u : Spelling := { s with
          pre := some { m with behind := some b }
          post := some (.labelled { p with before := none }) }
        have separator : ({ m with behind := some b } : Mark PhaseWord).chars PhaseWord.chars ++
            u.postText = m.chars PhaseWord.chars ++ s.postText := by
          rw [take, h, ht]
          rfl
        obtain ⟨text, takes⟩ := pre_takes (u := u) hpre rfl (by simp) separator
        refine ⟨u, chars_of_preText text, takes, fun l hl => ?_, u.dev_takes⟩
        cases hl
        exact ⟨(post p hpost).separator, (post p hpost).digits⟩
      · obtain ⟨d, _, ht⟩ := devText_eq_cons hdev
        let u : Spelling := { s with
          pre := some { m with behind := some b }
          dev := some { d with before := none } }
        have post' : u.post = none := hpost
        have separator : ({ m with behind := some b } : Mark PhaseWord).chars PhaseWord.chars ++
            u.postText = m.chars PhaseWord.chars ++ s.postText := by
          rw [take, h, ht, postText, post']
          rfl
        obtain ⟨text, takes⟩ := pre_takes (u := u) hpre rfl (by simp) separator
        exact ⟨u, chars_of_preText text, takes, fun l hl => by simp [post'] at hl, u.dev_takes⟩

end Spelling

end DepClause
