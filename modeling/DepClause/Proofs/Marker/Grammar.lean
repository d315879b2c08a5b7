import DepClause.Marker.Reader
import DepClause.Proofs.Marker.Lexing
import DepClause.Proofs.Table

/-!
# The reader and the grammar of markers

    or_expr  = and_expr | or_expr 'or' and_expr
    and_expr = atom | and_expr 'and' atom
    atom     = '(' or_expr ')' | comparison

`Derives` is this grammar with the trees that it gives, so both connectives group to the left. What
the reader reads is derived (`readOr_reads`), and what is derived is read (`isRead_of_derives`). The
fuel of the reader never runs out.
-/

namespace DepClause.Marker

inductive DerivesOperator : List Token → MarkerOperator → Prop where
  | compare (op : Comparator) : DerivesOperator [.operator op] (.compare op)
  | isIn : DerivesOperator [.isIn] .isIn
  | notIn : DerivesOperator [.not, .isIn] .notIn

/-- An old name of a variable and the name that took its place. -/
inductive Replaced : String → String → Prop where
  | osName : Replaced "os.name" "os_name"
  | sysPlatform : Replaced "sys.platform" "sys_platform"
  | platformVersion : Replaced "platform.version" "platform_version"
  | platformMachine : Replaced "platform.machine" "platform_machine"
  | platformImplementation :
      Replaced "platform.python_implementation" "platform_python_implementation"
  | implementation : Replaced "python_implementation" "platform_python_implementation"

/-- The variable that a word names. -/
inductive Names : String → String → Prop where
  | old {w v : String} (h : Replaced w v) : Names w v
  | present {w : String} (h : ∀ v, ¬Replaced w v) : Names w w

/-- One quoted text and one variable, with an operator between them. -/
inductive DerivesComparison : List Token → Comparison → Prop where
  | variableFirst {w v l : String} {ops : List Token} {op : MarkerOperator} (named : Names w v)
      (h : DerivesOperator ops op) :
      DerivesComparison (.word w :: (ops ++ [.text l])) ⟨v, op, l, false⟩
  | textFirst {w v l : String} {ops : List Token} {op : MarkerOperator} (named : Names w v)
      (h : DerivesOperator ops op) :
      DerivesComparison (.text l :: (ops ++ [.word w])) ⟨v, op, l, true⟩

/-- The nonterminals of the grammar. -/
inductive Level where
  | disjunction
  | conjunction
  | atom

inductive Derives : Level → List Token → Marker → Prop where
  | alone {ts : List Token} {m : Marker} (h : Derives .conjunction ts m) :
      Derives .disjunction ts m
  | or {ls rs : List Token} {l r : Marker} (hl : Derives .disjunction ls l)
      (hr : Derives .conjunction rs r) : Derives .disjunction (ls ++ .or :: rs) (.or l r)
  | single {ts : List Token} {m : Marker} (h : Derives .atom ts m) : Derives .conjunction ts m
  | and {ls rs : List Token} {l r : Marker} (hl : Derives .conjunction ls l)
      (hr : Derives .atom rs r) : Derives .conjunction (ls ++ .and :: rs) (.and l r)
  | group {ts : List Token} {m : Marker} (h : Derives .disjunction ts m) :
      Derives .atom (.opening :: (ts ++ [.closing])) m
  | comparison {ts : List Token} {c : Comparison} (h : DerivesComparison ts c) :
      Derives .atom ts (.comparison c)

/-- The tokens without their positions. -/
def bare (ts : List Placed) : List Token := ts.map Placed.token

/-- The positions that a reader of these tokens can name. -/
def positions (stop : Nat) (ts : List Placed) : List Nat := stop :: ts.map Placed.position

theorem nextPosition_mem (stop : Nat) (ts : List Placed) :
    nextPosition stop ts ∈ positions stop ts := by
  cases ts <;> simp [nextPosition, positions]

theorem positions_append (stop : Nat) (front rest : List Placed) :
    positions stop rest ⊆ positions stop (front ++ rest) := by
  intro p hp
  simp only [positions, List.map_append, List.mem_cons, List.mem_append] at hp ⊢
  rcases hp with hp | hp
  · exact .inl hp
  · exact .inr (.inr hp)

/-- The tokens in front of a reading form what was read, and a fault has a position of the text. -/
def Reads {α : Type} (Forms : List Token → α → Prop) (stop : Nat) (ts : List Placed) :
    Reading α → Prop
  | .ok (a, rest) => ∃ used, ts = used ++ rest ∧ Forms (bare used) a
  | .error (_, position) => position ∈ positions stop ts

/-! ## Comparisons -/

theorem replaced_of_mem {w v : String} (h : (w, v) ∈ renamed) : Replaced w v := by
  simp only [renamed, List.mem_cons, Prod.mk.injEq, List.not_mem_nil, or_false] at h
  rcases h with ⟨rfl, rfl⟩ | ⟨rfl, rfl⟩ | ⟨rfl, rfl⟩ | ⟨rfl, rfl⟩ | ⟨rfl, rfl⟩ | ⟨rfl, rfl⟩ <;>
    constructor

/-- The table of the reader has the old names and no others. -/
theorem names_iff {w v : String} : Names w v ↔ variableNamed w = v := by
  constructor
  · intro h
    cases h with
    | old h => cases h <;> rfl
    | present h =>
      cases found : renamed.get? w with
      | none => rw [variableNamed, found, Option.getD_none]
      | some v => exact absurd (replaced_of_mem (Table.mem_of_get? found)) (h v)
  · rintro rfl
    cases found : renamed.get? w with
    | some v =>
      rw [variableNamed, found]
      exact .old (replaced_of_mem (Table.mem_of_get? found))
    | none =>
      rw [variableNamed, found, Option.getD_none]
      refine .present fun v h => ?_
      cases h <;> cases found

theorem readOperator_reads (stop : Nat) (ts : List Placed) :
    Reads DerivesOperator stop ts (readOperator stop ts) := by
  unfold readOperator
  split
  · next op p us => exact ⟨[⟨.operator op, p⟩], rfl, .compare op⟩
  · next p us => exact ⟨[⟨.isIn, p⟩], rfl, .isIn⟩
  · next p q us => exact ⟨[⟨.not, p⟩, ⟨.isIn, q⟩], rfl, .notIn⟩
  · next p us _ => exact positions_append stop [_] us (nextPosition_mem stop us)
  · exact List.mem_cons_of_mem stop List.mem_cons_self
  · exact List.mem_cons_self

/-- The token of a side of a comparison. -/
def Operand.token : Operand → Token
  | .text s => .text s
  | .word s => .word s

theorem readOperand_reads (stop : Nat) (ts : List Placed) :
    Reads (fun us x => us = [x.token]) stop ts (readOperand stop ts) := by
  unfold readOperand
  split
  · next s p us => exact ⟨[⟨.text s, p⟩], rfl, rfl⟩
  · next s p us => exact ⟨[⟨.word s, p⟩], rfl, rfl⟩
  · exact List.mem_cons_of_mem stop List.mem_cons_self
  · exact List.mem_cons_self

theorem comparisonOf_ok {op : MarkerOperator} {x y : Operand} {c : Comparison} {ops : List Token}
    (h : comparisonOf op x y = .ok c) (hop : DerivesOperator ops op) :
    DerivesComparison (x.token :: (ops ++ [y.token])) c := by
  cases x <;> cases y <;> cases h
  · exact .textFirst (names_iff.2 rfl) hop
  · exact .variableFirst (names_iff.2 rfl) hop

theorem readComparison_reads (stop : Nat) (ts : List Placed) :
    Reads DerivesComparison stop ts (readComparison stop ts) := by
  have left := readOperand_reads stop ts
  unfold readComparison
  split
  · next e he =>
    rw [he] at left
    exact left
  · next x us hx =>
    rw [hx] at left
    obtain ⟨first, rfl, hfirst⟩ := left
    have middle := readOperator_reads stop us
    split
    · next e he =>
      rw [he] at middle
      exact positions_append stop first us middle
    · next op vs hop =>
      rw [hop] at middle
      obtain ⟨ops, rfl, hops⟩ := middle
      have right := readOperand_reads stop vs
      split
      · next e he =>
        rw [he] at right
        rw [← List.append_assoc]
        exact positions_append stop (first ++ ops) vs right
      · next y rest hy =>
        rw [hy] at right
        obtain ⟨last, rfl, hlast⟩ := right
        split
        · exact nextPosition_mem stop _
        · next c hc =>
          refine ⟨first ++ (ops ++ last), by simp, ?_⟩
          have form := comparisonOf_ok hc hops
          simp only [bare, List.map_append] at hfirst hlast form ⊢
          rw [hfirst, hlast]
          exact form

theorem exists_of_bare_eq_cons {t : Token} {us : List Token} {ts : List Placed}
    (h : bare ts = t :: us) : ∃ p vs, ts = ⟨t, p⟩ :: vs ∧ bare vs = us := by
  obtain ⟨⟨t', p⟩, vs, rfl, rfl, hvs⟩ := List.map_eq_cons_iff.1 h
  exact ⟨p, vs, rfl, hvs⟩

theorem exists_of_bare_eq_append {us vs : List Token} {ts : List Placed}
    (h : bare ts = us ++ vs) : ∃ xs ys, ts = xs ++ ys ∧ bare xs = us ∧ bare ys = vs :=
  List.map_eq_append_iff.1 h

theorem exists_of_bare_eq_singleton {t : Token} {ts : List Placed} (h : bare ts = [t]) :
    ∃ p, ts = [⟨t, p⟩] := by
  obtain ⟨p, vs, rfl, hvs⟩ := exists_of_bare_eq_cons h
  obtain rfl := List.map_eq_nil_iff.1 hvs
  exact ⟨p, rfl⟩

theorem readOperator_of_derives (stop : Nat) {ts : List Placed} {ops : List Token}
    {op : MarkerOperator} (h : DerivesOperator ops op) (hts : bare ts = ops)
    (rest : List Placed) : readOperator stop (ts ++ rest) = .ok (op, rest) := by
  cases h with
  | compare op =>
    obtain ⟨p, rfl⟩ := exists_of_bare_eq_singleton hts
    rfl
  | isIn =>
    obtain ⟨p, rfl⟩ := exists_of_bare_eq_singleton hts
    rfl
  | notIn =>
    obtain ⟨p, us, rfl, hus⟩ := exists_of_bare_eq_cons hts
    obtain ⟨q, rfl⟩ := exists_of_bare_eq_singleton hus
    rfl

theorem readComparison_of_derives (stop : Nat) {ts : List Placed} {us : List Token}
    {c : Comparison} (h : DerivesComparison us c) (hts : bare ts = us) (rest : List Placed) :
    readComparison stop (ts ++ rest) = .ok (c, rest) := by
  cases h with
  | @variableFirst w v l ops op named hop =>
    obtain ⟨p, vs, rfl, hvs⟩ := exists_of_bare_eq_cons hts
    obtain ⟨os, ls, rfl, hos, hls⟩ := exists_of_bare_eq_append hvs
    obtain ⟨q, rfl⟩ := exists_of_bare_eq_singleton hls
    have operator := readOperator_of_derives stop hop hos (⟨.text l, q⟩ :: rest)
    simp [readComparison, readOperand, operator, comparisonOf, names_iff.1 named]
  | @textFirst w v l ops op named hop =>
    obtain ⟨p, vs, rfl, hvs⟩ := exists_of_bare_eq_cons hts
    obtain ⟨os, ws, rfl, hos, hws⟩ := exists_of_bare_eq_append hvs
    obtain ⟨q, rfl⟩ := exists_of_bare_eq_singleton hws
    have operator := readOperator_of_derives stop hop hos (⟨.word w, q⟩ :: rest)
    simp [readComparison, readOperand, operator, comparisonOf, names_iff.1 named]

/-! ## The steps of the reader -/

/-- Whether the next token is a certain one. -/
def Starts (t : Token) (ts : List Placed) : Prop := ∃ p us, ts = ⟨t, p⟩ :: us

section
variable {stop fuel : Nat}

theorem readOrTail_of_or (l : Marker) (p : Nat) (ts : List Placed) :
    readOrTail stop (fuel + 1) l (⟨.or, p⟩ :: ts) =
      match readAnd stop fuel ts with
      | .error e => .error e
      | .ok (r, rest) => readOrTail stop fuel (.or l r) rest :=
  rfl

theorem readOrTail_stop {ts : List Placed} (h : ¬Starts .or ts) (l : Marker) :
    readOrTail stop (fuel + 1) l ts = .ok (l, ts) := by
  rw [readOrTail]
  intro p us hts
  exact h ⟨p, us, hts⟩

theorem readAndTail_of_and (l : Marker) (p : Nat) (ts : List Placed) :
    readAndTail stop (fuel + 1) l (⟨.and, p⟩ :: ts) =
      match readAtom stop fuel ts with
      | .error e => .error e
      | .ok (r, rest) => readAndTail stop fuel (.and l r) rest :=
  rfl

theorem readAndTail_stop {ts : List Placed} (h : ¬Starts .and ts) (l : Marker) :
    readAndTail stop (fuel + 1) l ts = .ok (l, ts) := by
  rw [readAndTail]
  intro p us hts
  exact h ⟨p, us, hts⟩

theorem readAtom_of_opening (p : Nat) (ts : List Placed) :
    readAtom stop (fuel + 1) (⟨.opening, p⟩ :: ts) =
      match readOr stop fuel ts with
      | .error e => .error e
      | .ok (inner, ⟨.closing, _⟩ :: rest) => .ok (inner, rest)
      | .ok (_, rest) => .error (.closing, nextPosition stop rest) :=
  rfl

theorem readAtom_of_comparison {ts : List Placed} (h : ¬Starts .opening ts) :
    readAtom stop (fuel + 1) ts =
      match readComparison stop ts with
      | .error e => .error e
      | .ok (c, rest) => .ok (.comparison c, rest) := by
  cases ts with
  | nil => rfl
  | cons t us =>
    obtain ⟨token, p⟩ := t
    cases token with
    | opening => exact absurd ⟨p, us, rfl⟩ h
    | _ => rfl

end

/-! ## What is read is derived -/

section
variable {stop : Nat}

mutual

theorem readOr_reads (fuel : Nat) (ts : List Placed) :
    Reads (Derives .disjunction) stop ts (readOr stop fuel ts) := by
  cases fuel with
  | zero => exact nextPosition_mem stop ts
  | succ fuel =>
    have left := readAnd_reads fuel ts
    rw [readOr]
    split
    · next e he =>
      rw [he] at left
      exact left
    · next l rest hl =>
      rw [hl] at left
      obtain ⟨front, rfl, derived⟩ := left
      exact readOrTail_reads fuel front (.alone derived) rest

theorem readOrTail_reads (fuel : Nat) {l : Marker} (front : List Placed)
    (left : Derives .disjunction (bare front) l) (ts : List Placed) :
    Reads (Derives .disjunction) stop (front ++ ts) (readOrTail stop fuel l ts) := by
  cases fuel with
  | zero => exact positions_append stop front ts (nextPosition_mem stop ts)
  | succ fuel =>
    by_cases hts : Starts .or ts
    · obtain ⟨p, us, rfl⟩ := hts
      have right := readAnd_reads fuel us
      rw [readOrTail_of_or, List.append_cons]
      split
      · next e he =>
        rw [he] at right
        exact positions_append stop _ us right
      · next r rest hr =>
        rw [hr] at right
        obtain ⟨used, rfl, derived⟩ := right
        have joined : Derives .disjunction (bare (front ++ [⟨.or, p⟩] ++ used)) (.or l r) := by
          have := left.or derived
          simpa [bare] using this
        rw [← List.append_assoc]
        exact readOrTail_reads fuel _ joined rest
    · rw [readOrTail_stop hts]
      exact ⟨front, rfl, left⟩

theorem readAnd_reads (fuel : Nat) (ts : List Placed) :
    Reads (Derives .conjunction) stop ts (readAnd stop fuel ts) := by
  cases fuel with
  | zero => exact nextPosition_mem stop ts
  | succ fuel =>
    have left := readAtom_reads fuel ts
    rw [readAnd]
    split
    · next e he =>
      rw [he] at left
      exact left
    · next l rest hl =>
      rw [hl] at left
      obtain ⟨front, rfl, derived⟩ := left
      exact readAndTail_reads fuel front (.single derived) rest

theorem readAndTail_reads (fuel : Nat) {l : Marker} (front : List Placed)
    (left : Derives .conjunction (bare front) l) (ts : List Placed) :
    Reads (Derives .conjunction) stop (front ++ ts) (readAndTail stop fuel l ts) := by
  cases fuel with
  | zero => exact positions_append stop front ts (nextPosition_mem stop ts)
  | succ fuel =>
    by_cases hts : Starts .and ts
    · obtain ⟨p, us, rfl⟩ := hts
      have right := readAtom_reads fuel us
      rw [readAndTail_of_and, List.append_cons]
      split
      · next e he =>
        rw [he] at right
        exact positions_append stop _ us right
      · next r rest hr =>
        rw [hr] at right
        obtain ⟨used, rfl, derived⟩ := right
        have joined : Derives .conjunction (bare (front ++ [⟨.and, p⟩] ++ used)) (.and l r) := by
          have := left.and derived
          simpa [bare] using this
        rw [← List.append_assoc]
        exact readAndTail_reads fuel _ joined rest
    · rw [readAndTail_stop hts]
      exact ⟨front, rfl, left⟩

theorem readAtom_reads (fuel : Nat) (ts : List Placed) :
    Reads (Derives .atom) stop ts (readAtom stop fuel ts) := by
  cases fuel with
  | zero => exact nextPosition_mem stop ts
  | succ fuel =>
    by_cases hts : Starts .opening ts
    · obtain ⟨p, us, rfl⟩ := hts
      have inner := readOr_reads fuel us
      rw [readAtom_of_opening]
      split
      · next e he =>
        rw [he] at inner
        exact positions_append stop [_] us inner
      · next m q rest hm =>
        rw [hm] at inner
        obtain ⟨used, rfl, derived⟩ := inner
        refine ⟨⟨.opening, p⟩ :: (used ++ [⟨.closing, q⟩]), by simp, ?_⟩
        have := derived.group
        simpa [bare] using this
      · next m rest _ hm =>
        rw [hm] at inner
        obtain ⟨used, rfl, _⟩ := inner
        exact positions_append stop (_ :: used) rest (nextPosition_mem stop rest)
    · have whole := readComparison_reads stop ts
      rw [readAtom_of_comparison hts]
      split
      · next e he =>
        rw [he] at whole
        exact whole
      · next c rest hc =>
        rw [hc] at whole
        obtain ⟨used, hu, derived⟩ := whole
        exact ⟨used, hu, .comparison derived⟩

end

theorem DerivesComparison.exists_cons {ts : List Token} {c : Comparison}
    (h : DerivesComparison ts c) : ∃ t us, ts = t :: us ∧ t ≠ .opening := by
  cases h with
  | variableFirst _ _ => exact ⟨_, _, rfl, by simp⟩
  | textFirst _ _ => exact ⟨_, _, rfl, by simp⟩

theorem Derives.ne_nil {level : Level} {ts : List Token} {m : Marker}
    (h : Derives level ts m) : ts ≠ [] := by
  induction h with
  | alone _ ih => exact ih
  | single _ ih => exact ih
  | or _ _ _ _ => simp
  | and _ _ _ _ => simp
  | group _ _ => simp
  | comparison h =>
    obtain ⟨t, us, rfl, _⟩ := h.exists_cons
    simp

theorem Reads.shorter {level : Level} {ts rest : List Placed} {r : Reading Marker} {m : Marker}
    (h : Reads (Derives level) stop ts r) (hr : r = .ok (m, rest)) :
    rest.length < ts.length := by
  subst hr
  obtain ⟨used, rfl, derived⟩ := h
  have nonempty : used.length ≠ 0 := by
    intro h0
    obtain rfl := List.length_eq_zero_iff.1 h0
    exact derived.ne_nil rfl
  rw [List.length_append]
  omega

/-! ## The fuel is enough

Each call passes on one less, and at most three calls follow each other on the same tokens before
one is read. So three for each token and three more let every call go on to its end. -/

mutual

theorem readOr_fuel (f g : Nat) (ts : List Placed) (hf : 3 * ts.length + 3 ≤ f)
    (hg : 3 * ts.length + 3 ≤ g) : readOr stop f ts = readOr stop g ts := by
  cases f with
  | zero => omega
  | succ f =>
    obtain ⟨g, rfl⟩ : ∃ k, g = k + 1 := ⟨g - 1, by omega⟩
    have left := readAnd_fuel f g ts (by omega) (by omega)
    rw [readOr, readOr, left]
    split
    · rfl
    · next l rest hl =>
      have := (readAnd_reads g ts).shorter hl
      exact readOrTail_fuel f g l rest (by omega) (by omega)

theorem readOrTail_fuel (f g : Nat) (l : Marker) (ts : List Placed)
    (hf : 3 * ts.length + 1 ≤ f) (hg : 3 * ts.length + 1 ≤ g) :
    readOrTail stop f l ts = readOrTail stop g l ts := by
  cases f with
  | zero => omega
  | succ f =>
    obtain ⟨g, rfl⟩ : ∃ k, g = k + 1 := ⟨g - 1, by omega⟩
    by_cases hts : Starts .or ts
    · obtain ⟨p, us, rfl⟩ := hts
      simp only [List.length_cons] at hf hg
      have right := readAnd_fuel f g us (by omega) (by omega)
      rw [readOrTail_of_or, readOrTail_of_or, right]
      split
      · rfl
      · next r rest hr =>
        have := (readAnd_reads g us).shorter hr
        exact readOrTail_fuel f g (.or l r) rest (by omega) (by omega)
    · rw [readOrTail_stop hts, readOrTail_stop hts]

theorem readAnd_fuel (f g : Nat) (ts : List Placed) (hf : 3 * ts.length + 2 ≤ f)
    (hg : 3 * ts.length + 2 ≤ g) : readAnd stop f ts = readAnd stop g ts := by
  cases f with
  | zero => omega
  | succ f =>
    obtain ⟨g, rfl⟩ : ∃ k, g = k + 1 := ⟨g - 1, by omega⟩
    have left := readAtom_fuel f g ts (by omega) (by omega)
    rw [readAnd, readAnd, left]
    split
    · rfl
    · next l rest hl =>
      have := (readAtom_reads g ts).shorter hl
      exact readAndTail_fuel f g l rest (by omega) (by omega)

theorem readAndTail_fuel (f g : Nat) (l : Marker) (ts : List Placed)
    (hf : 3 * ts.length + 1 ≤ f) (hg : 3 * ts.length + 1 ≤ g) :
    readAndTail stop f l ts = readAndTail stop g l ts := by
  cases f with
  | zero => omega
  | succ f =>
    obtain ⟨g, rfl⟩ : ∃ k, g = k + 1 := ⟨g - 1, by omega⟩
    by_cases hts : Starts .and ts
    · obtain ⟨p, us, rfl⟩ := hts
      simp only [List.length_cons] at hf hg
      have right := readAtom_fuel f g us (by omega) (by omega)
      rw [readAndTail_of_and, readAndTail_of_and, right]
      split
      · rfl
      · next r rest hr =>
        have := (readAtom_reads g us).shorter hr
        exact readAndTail_fuel f g (.and l r) rest (by omega) (by omega)
    · rw [readAndTail_stop hts, readAndTail_stop hts]

theorem readAtom_fuel (f g : Nat) (ts : List Placed) (hf : 3 * ts.length + 1 ≤ f)
    (hg : 3 * ts.length + 1 ≤ g) : readAtom stop f ts = readAtom stop g ts := by
  cases f with
  | zero => omega
  | succ f =>
    obtain ⟨g, rfl⟩ : ∃ k, g = k + 1 := ⟨g - 1, by omega⟩
    by_cases hts : Starts .opening ts
    · obtain ⟨p, us, rfl⟩ := hts
      simp only [List.length_cons] at hf hg
      have inner := readOr_fuel f g us (by omega) (by omega)
      rw [readAtom_of_opening, readAtom_of_opening, inner]
    · rw [readAtom_of_comparison hts, readAtom_of_comparison hts]

end

/-! ## What is derived is read -/

/-- Tokens of a level are read as their tree, and the reading goes on behind them. -/
def IsRead (stop : Nat) (ts : List Placed) (m : Marker) : Level → Prop
  | .disjunction => ∀ rest f, ¬Starts .and rest → 3 * (ts ++ rest).length + 3 ≤ f →
      readOr stop f (ts ++ rest) = readOrTail stop f m rest
  | .conjunction => ∀ rest f, 3 * (ts ++ rest).length + 2 ≤ f →
      readAnd stop f (ts ++ rest) = readAndTail stop f m rest
  | .atom => ∀ rest f, 3 * (ts ++ rest).length + 1 ≤ f →
      readAtom stop f (ts ++ rest) = .ok (m, rest)

/-- A conjunction ends where no `and` follows. -/
theorem IsRead.whole {ts rest : List Placed} {m : Marker} (h : IsRead stop ts m .conjunction)
    (hrest : ¬Starts .and rest) {f : Nat} (hf : 3 * (ts ++ rest).length + 2 ≤ f) :
    readAnd stop f (ts ++ rest) = .ok (m, rest) := by
  obtain ⟨g, rfl⟩ : ∃ k, f = k + 1 := ⟨f - 1, by omega⟩
  rw [h rest _ hf, readAndTail_stop hrest]

theorem isRead_alone {ts : List Placed} {m : Marker} (h : IsRead stop ts m .conjunction) :
    IsRead stop ts m .disjunction := by
  intro rest f hrest hf
  obtain ⟨g, rfl⟩ : ∃ k, f = k + 1 := ⟨f - 1, by omega⟩
  rw [readOr, h.whole hrest (by omega)]
  simp only [List.length_append] at hf
  exact readOrTail_fuel g (g + 1) m rest (by omega) (by omega)

theorem isRead_or {ls rs : List Placed} {p : Nat} {l r : Marker}
    (hl : IsRead stop ls l .disjunction) (hr : IsRead stop rs r .conjunction) :
    IsRead stop (ls ++ ⟨.or, p⟩ :: rs) (.or l r) .disjunction := by
  intro rest f hrest hf
  have no_and : ¬Starts .and (⟨.or, p⟩ :: (rs ++ rest)) := by
    rintro ⟨q, us, h⟩
    cases h
  rw [List.append_assoc, List.cons_append] at hf ⊢
  rw [hl _ f no_and hf]
  simp only [List.length_append, List.length_cons] at hf
  obtain ⟨g, rfl⟩ : ∃ k, f = k + 1 := ⟨f - 1, by omega⟩
  rw [readOrTail_of_or, hr.whole hrest (by simp only [List.length_append]; omega)]
  exact readOrTail_fuel g (g + 1) (.or l r) rest (by omega) (by omega)

theorem isRead_single {ts : List Placed} {m : Marker} (h : IsRead stop ts m .atom) :
    IsRead stop ts m .conjunction := by
  intro rest f hf
  obtain ⟨g, rfl⟩ : ∃ k, f = k + 1 := ⟨f - 1, by omega⟩
  rw [readAnd, h rest g (by omega)]
  simp only [List.length_append] at hf
  exact readAndTail_fuel g (g + 1) m rest (by omega) (by omega)

theorem isRead_and {ls rs : List Placed} {p : Nat} {l r : Marker}
    (hl : IsRead stop ls l .conjunction) (hr : IsRead stop rs r .atom) :
    IsRead stop (ls ++ ⟨.and, p⟩ :: rs) (.and l r) .conjunction := by
  intro rest f hf
  rw [List.append_assoc, List.cons_append] at hf ⊢
  rw [hl _ f hf]
  simp only [List.length_append, List.length_cons] at hf
  obtain ⟨g, rfl⟩ : ∃ k, f = k + 1 := ⟨f - 1, by omega⟩
  rw [readAndTail_of_and, hr rest g (by simp only [List.length_append]; omega)]
  exact readAndTail_fuel g (g + 1) (.and l r) rest (by omega) (by omega)

theorem isRead_group {ts : List Placed} {p q : Nat} {m : Marker}
    (h : IsRead stop ts m .disjunction) :
    IsRead stop (⟨.opening, p⟩ :: (ts ++ [⟨.closing, q⟩])) m .atom := by
  intro rest f hf
  have closed : ¬Starts .and (⟨.closing, q⟩ :: rest) ∧ ¬Starts .or (⟨.closing, q⟩ :: rest) := by
    constructor
    · rintro ⟨_, _, h⟩
      cases h
    · rintro ⟨_, _, h⟩
      cases h
  rw [List.cons_append, List.append_assoc, List.singleton_append] at hf ⊢
  rw [List.length_cons] at hf
  obtain ⟨g, rfl⟩ : ∃ k, f = k + 2 := ⟨f - 2, by omega⟩
  rw [readAtom_of_opening, h _ (g + 1) closed.1 (by omega), readOrTail_stop closed.2]

theorem isRead_comparison {ts : List Placed} {c : Comparison}
    (h : DerivesComparison (bare ts) c) : IsRead stop ts (.comparison c) .atom := by
  intro rest f hf
  obtain ⟨g, rfl⟩ : ∃ k, f = k + 1 := ⟨f - 1, by omega⟩
  have plain : ¬Starts .opening (ts ++ rest) := by
    rintro ⟨p, us, hus⟩
    obtain ⟨t, vs, ht, ne⟩ := h.exists_cons
    obtain ⟨q, xs, rfl, _⟩ := exists_of_bare_eq_cons ht
    cases hus
    exact ne rfl
  rw [readAtom_of_comparison plain, readComparison_of_derives stop h rfl rest]

theorem isRead_of_derives {level : Level} {us : List Token} {m : Marker}
    (h : Derives level us m) : ∀ ts, bare ts = us → IsRead stop ts m level := by
  induction h with
  | alone _ ih =>
    intro ts hts
    exact isRead_alone (ih ts hts)
  | or _ _ ihl ihr =>
    intro ts hts
    obtain ⟨ls, ys, rfl, hls, hys⟩ := exists_of_bare_eq_append hts
    obtain ⟨p, rs, rfl, hrs⟩ := exists_of_bare_eq_cons hys
    exact isRead_or (ihl ls hls) (ihr rs hrs)
  | single _ ih =>
    intro ts hts
    exact isRead_single (ih ts hts)
  | and _ _ ihl ihr =>
    intro ts hts
    obtain ⟨ls, ys, rfl, hls, hys⟩ := exists_of_bare_eq_append hts
    obtain ⟨p, rs, rfl, hrs⟩ := exists_of_bare_eq_cons hys
    exact isRead_and (ihl ls hls) (ihr rs hrs)
  | group _ ih =>
    intro ts hts
    obtain ⟨p, ys, rfl, hys⟩ := exists_of_bare_eq_cons hts
    obtain ⟨xs, zs, rfl, hxs, hzs⟩ := exists_of_bare_eq_append hys
    obtain ⟨q, rfl⟩ := exists_of_bare_eq_singleton hzs
    exact isRead_group (ih xs hxs)
  | comparison h =>
    intro ts hts
    exact isRead_comparison (hts ▸ h)

/-! ## The whole text -/

theorem ofTokens_eq_ok_iff {ts : List Placed} {m : Marker} :
    ofTokens stop ts = .ok m ↔ Derives .disjunction (bare ts) m := by
  constructor
  · intro h
    have whole : Reads (Derives .disjunction) stop ts (readOr stop (4 * (ts.length + 1)) ts) :=
      readOr_reads _ ts
    unfold ofTokens at h
    split at h
    · cases h
    · next n hn =>
      obtain rfl := Except.ok.inj h
      rw [hn] at whole
      obtain ⟨used, hu, derived⟩ := whole
      rw [List.append_nil] at hu
      exact hu ▸ derived
    · cases h
  · intro h
    have no_and : ¬Starts .and [] := by
      rintro ⟨_, _, h⟩
      cases h
    have no_or : ¬Starts .or [] := by
      rintro ⟨_, _, h⟩
      cases h
    have read : readOr stop (4 * ts.length + 3 + 1) (ts ++ []) = .ok (m, []) := by
      rw [isRead_of_derives h ts rfl [] _ no_and (by rw [List.append_nil]; omega),
        readOrTail_stop no_or]
    rw [List.append_nil] at read
    rw [ofTokens, show 4 * (ts.length + 1) = 4 * ts.length + 3 + 1 by omega, read]

theorem position_of_ofTokens_error {ts : List Placed} {fault : MarkerFault} {position : Nat}
    (h : ofTokens stop ts = .error (fault, position)) : position ∈ positions stop ts := by
  have whole : Reads (Derives .disjunction) stop ts (readOr stop (4 * (ts.length + 1)) ts) :=
    readOr_reads _ ts
  unfold ofTokens at h
  split at h
  · next e he =>
    obtain rfl := Except.error.inj h
    rw [he] at whole
    exact whole
  · cases h
  · next m t p us hm =>
    rw [hm] at whole
    obtain ⟨used, rfl, _⟩ := whole
    obtain ⟨-, rfl⟩ := Prod.mk.inj (Except.error.inj h)
    apply positions_append stop used
    exact List.mem_cons_of_mem stop List.mem_cons_self

end

theorem ofChars_eq_ok_iff {s : List Char} {m : Marker} :
    ofChars s = .ok m ↔ ∃ ts, Lexes s ts ∧ Derives .disjunction ts m := by
  unfold ofChars
  constructor
  · intro h
    split at h
    · cases h
    · next ps hps => exact ⟨bare ps, lexes_iff.2 ⟨ps, hps, rfl⟩, ofTokens_eq_ok_iff.1 h⟩
  · rintro ⟨ts, lexes, derived⟩
    obtain ⟨ps, hps, rfl⟩ := lexes_iff.1 lexes
    rw [hps]
    exact ofTokens_eq_ok_iff.2 derived

theorem parse_eq_ok_iff {text : String} {m : Marker} :
    parse text = .ok m ↔ ∃ ts, Lexes text.toList ts ∧ Derives .disjunction ts m := by
  rw [← ofChars_eq_ok_iff, parse]
  cases ofChars text.toList with
  | ok n => simp
  | error e => simp

/-- Blanks around a marker text make no difference. -/
theorem parse_trim {text : String} {m : Marker} (h : parse text = .ok m) :
    parse (trim text) = .ok m := by
  obtain ⟨ts, lexes, derived⟩ := parse_eq_ok_iff.1 h
  refine parse_eq_ok_iff.2 ⟨ts, ?_, derived⟩
  rw [trim, String.toList_ofList]
  exact lexes.trim

theorem ne_empty_of_parse {text : String} {m : Marker} (h : parse text = .ok m) : text ≠ "" := by
  rintro rfl
  obtain ⟨ts, lexes, derived⟩ := parse_eq_ok_iff.1 h
  obtain ⟨ps, hps, rfl⟩ := lexes_iff.1 lexes
  have none : tokens "".toList = .ok [] := tokensFrom.eq_def 0 []
  rw [none] at hps
  cases hps
  exact derived.ne_nil rfl

/-- A fault lies in the text, or right behind it. -/
theorem position_of_ofChars_error {s : List Char} {fault : MarkerFault} {position : Nat}
    (h : ofChars s = .error (fault, position)) : position ≤ Text.width s := by
  have within := tokensFrom_within 0 s
  rw [Nat.zero_add] at within
  unfold ofChars tokens at h
  split at h
  · next e he =>
    obtain rfl := Except.error.inj h
    rw [he] at within
    exact within
  · next ps hps =>
    rw [hps] at within
    rcases List.mem_cons.1 (position_of_ofTokens_error h) with rfl | hp
    · exact Nat.le_refl _
    · obtain ⟨t, ht, rfl⟩ := List.mem_map.1 hp
      exact within t ht

/-- **The texts that are read are those of the grammar, and each has one tree.** Any other text is
refused at a position of the text. More fuel than the reader has would change nothing. -/
theorem parse_reads_grammar (text : String) :
    (∀ m, parse text = .ok m ↔ ∃ ts, Lexes text.toList ts ∧ Derives .disjunction ts m) ∧
      ((¬∃ ts m, Lexes text.toList ts ∧ Derives .disjunction ts m) ↔
        ∃ fault position, parse text = .error (.badMarker text fault position) ∧
          position ≤ Text.width text.toList) ∧
      ∀ stop ts more, readOr stop (4 * (ts.length + 1) + more) ts =
        readOr stop (4 * (ts.length + 1)) ts := by
  refine ⟨fun m => parse_eq_ok_iff, ⟨?_, ?_⟩, ?_⟩
  · intro refused
    cases h : ofChars text.toList with
    | ok m =>
      obtain ⟨ts, derived⟩ := ofChars_eq_ok_iff.1 h
      exact absurd ⟨ts, m, derived⟩ refused
    | error e =>
      obtain ⟨fault, position⟩ := e
      refine ⟨fault, position, ?_, position_of_ofChars_error h⟩
      rw [parse, h]
  · rintro ⟨fault, position, failed, _⟩ ⟨ts, m, derived⟩
    rw [parse_eq_ok_iff.2 ⟨ts, derived⟩] at failed
    cases failed
  · intro stop ts more
    exact readOr_fuel _ _ ts (by omega) (by omega)

/-- `and` binds before `or`. -/
example : (parse "a == 'x' or 'y' not in b and sys.platform < \"z\"").toOption = some
    (.or (.comparison ⟨"a", .compare .equal, "x", false⟩)
      (.and (.comparison ⟨"b", .notIn, "y", true⟩)
        (.comparison ⟨"sys_platform", .compare .less, "z", false⟩))) := by
  decide +kernel

end DepClause.Marker
