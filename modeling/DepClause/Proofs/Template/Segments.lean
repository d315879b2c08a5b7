import Mathlib
import DepClause.Proofs.Template
import DepClause.Proofs.Text.Joined

/-!
# Templates made of segments

A template is written for texts and placeholders by doubling the braces of the texts. It is cut
where it was put together, however the braces meet: it stands for the texts and the values in their
order, and its placeholders are those that were put in. Every template that can be filled in is
written in this way.

The characters of two texts next to each other can be halves that belong together. So a template is
compared with what it was written for up to joined halves, which leaves braces and names alone.
-/

namespace DepClause.Template

open Text (join)

/-- The name of a placeholder. It has no braces, and its halves are joined. -/
structure Name where
  text : String
  plain : ∀ c ∈ text.toList, isBrace c = false
  whole : Text.joined text = text

inductive Segment where
  | literal (text : String)
  | placeholder (name : Name)

namespace Segment

/-- What is written for a segment. -/
def chars : Segment → List Char
  | .literal text => text.toList.flatMap fun c => if isBrace c then [c, c] else [c]
  | .placeholder name => '\x7b' :: (name.text.toList ++ ['\x7d'])

def name? : Segment → Option String
  | .literal _ => none
  | .placeholder name => some name.text

/-- What a segment stands for. -/
def content (values : Table String) : Segment → String
  | .literal text => text
  | .placeholder name => (values.get? name.text).getD ""

/-- The parts into which a segment is cut. -/
def pieces : Segment → List Piece
  | .literal text => text.toList.map .char
  | .placeholder name => [.name name.text]

end Segment

/-- The template that is written for segments. -/
def render (segments : List Segment) : String :=
  Text.joined (String.ofList (segments.flatMap Segment.chars))

/-- The names of the placeholders among segments. -/
def names (segments : List Segment) : List String := segments.filterMap Segment.name?

/-- The names in use, each once and in the order of their first use. -/
structure FirstUses (names uses : List String) : Prop where
  nodup : uses.Nodup
  mem (name : String) : name ∈ uses ↔ name ∈ names
  order : uses.Pairwise fun a b => names.idxOf a < names.idxOf b

theorem firstUses_eraseDups (names : List String) : FirstUses names names.eraseDups := by
  have order : names.eraseDups.Pairwise fun a b => names.idxOf a < names.idxOf b := by
    induction names using List.reverseRecOn with
    | nil => exact .nil
    | append_singleton names name ih =>
      have before : names.eraseDups.Pairwise fun a b =>
          (names ++ [name]).idxOf a < (names ++ [name]).idxOf b := by
        refine ih.imp_of_mem fun ha hb lt => ?_
        rw [List.idxOf_append_of_mem (List.mem_eraseDups.1 ha),
          List.idxOf_append_of_mem (List.mem_eraseDups.1 hb)]
        exact lt
      rw [List.eraseDups_append]
      by_cases used : name ∈ names
      · simpa [List.removeAll, used] using before
      · have new : ([name].removeAll names).eraseDups = [name] := by
          simp [List.removeAll, used, List.eraseDups_cons]
        rw [new, List.pairwise_append]
        refine ⟨before, List.pairwise_singleton _ _, fun a ha b hb => ?_⟩
        have ha := List.mem_eraseDups.1 ha
        obtain rfl := List.mem_singleton.1 hb
        rw [List.idxOf_append_of_mem ha, List.idxOf_append_of_notMem used]
        have := List.idxOf_lt_length_iff.2 ha
        omega
  refine ⟨order.imp fun lt eq => ?_, fun name => List.mem_eraseDups, order⟩
  rw [eq] at lt
  exact Nat.lt_irrefl _ lt

/-! ## The cut of a template -/

theorem pieces_append_plain {x : List Char} (hx : ∀ c ∈ x, isBrace c = false) (s : List Char) :
    pieces (x ++ s) = x.map .char ++ pieces s := by
  induction x with
  | nil => rfl
  | cons c x ih =>
    obtain ⟨hc, hx⟩ := List.forall_mem_cons.1 hx
    rw [List.cons_append, pieces_plain hc, ih hx]
    rfl

theorem Segment.pieces_chars_append (segment : Segment) (s : List Char) :
    Template.pieces (segment.chars ++ s) = segment.pieces ++ Template.pieces s := by
  cases segment with
  | placeholder name =>
    have whole : (placeholder name).chars ++ s =
        '\x7b' :: (name.text.toList ++ '\x7d' :: s) := by simp [chars]
    rw [whole, pieces_placeholder name.plain, String.ofList_toList]
    rfl
  | literal text =>
    simp only [chars, pieces]
    induction text.toList with
    | nil => rfl
    | cons c cs ih =>
      rw [List.flatMap_cons, List.append_assoc]
      split
      · next brace =>
        rw [List.cons_append, List.singleton_append, pieces_doubled brace, ih]
        rfl
      · next plain =>
        rw [List.singleton_append, pieces_plain (by simpa using plain), ih]
        rfl

theorem pieces_chars (segments : List Segment) :
    pieces (segments.flatMap Segment.chars) = segments.flatMap Segment.pieces := by
  induction segments with
  | nil => simp [pieces]
  | cons segment segments ih =>
    rw [List.flatMap_cons, Segment.pieces_chars_append, ih, List.flatMap_cons]

theorem stray_not_mem_pieces (segments : List Segment) (c : Char) :
    Piece.stray c ∉ segments.flatMap Segment.pieces := by
  intro mem
  obtain ⟨segment, -, mem⟩ := List.mem_flatMap.1 mem
  cases segment <;> simp [Segment.pieces] at mem

theorem matched_chars (segments : List Segment) : Matched (segments.flatMap Segment.chars) := by
  rw [matched_iff, pieces_chars]
  exact stray_not_mem_pieces segments

/-! ## Joined halves -/

/-- A part that is no character of the text. -/
def Piece.isMark : Piece → Bool
  | .char _ => false
  | _ => true

/-- Cuts that differ in the halves of their characters only. -/
structure Alike (ps qs : List Piece) : Prop where
  marks : ps.filter Piece.isMark = qs.filter Piece.isMark
  filled (values : Table String) :
    join (ps.flatMap (Piece.content values)) = join (qs.flatMap (Piece.content values))

theorem Alike.refl (ps : List Piece) : Alike ps ps := ⟨rfl, fun _ => rfl⟩

theorem Alike.append {ps qs ps' qs' : List Piece} (front : Alike ps qs) (behind : Alike ps' qs') :
    Alike (ps ++ ps') (qs ++ qs') where
  marks := by rw [List.filter_append, List.filter_append, front.marks, behind.marks]
  filled values := by
    rw [List.flatMap_append, List.flatMap_append]
    exact Text.join_append_congr (front.filled values) (behind.filled values)

theorem alike_join (x : List Char) : Alike ((join x).map .char) (x.map .char) where
  marks := by simp [List.filter_map, Function.comp_def, Piece.isMark]
  filled values := by
    have content (s : List Char) : (s.map Piece.char).flatMap (Piece.content values) = s := by
      simp [List.flatMap_map, Piece.content]
    rw [content, content, Text.join_join]

theorem Alike.names {ps qs : List Piece} (h : Alike ps qs) :
    ps.filterMap Piece.name? = qs.filterMap Piece.name? := by
  have marked (ps : List Piece) :
      ps.filterMap Piece.name? = (ps.filter Piece.isMark).filterMap Piece.name? := by
    rw [List.filterMap_filter]
    refine List.filterMap_congr fun p _ => ?_
    cases p <;> rfl
  rw [marked, h.marks, ← marked]

theorem Alike.stray {ps qs : List Piece} (h : Alike ps qs) {c : Char} (hc : Piece.stray c ∈ ps) :
    Piece.stray c ∈ qs := by
  have mem : Piece.stray c ∈ ps.filter Piece.isMark := List.mem_filter.2 ⟨hc, rfl⟩
  rw [h.marks] at mem
  exact (List.mem_filter.1 mem).1

theorem toNat_lt_of_isBrace {c : Char} (hc : isBrace c = true) : c.toNat < 0x80 := by
  rcases isBrace_iff.1 hc with rfl | rfl <;> decide

theorem join_plain {x : List Char} (hx : ∀ c ∈ x, isBrace c = false) :
    ∀ c ∈ join x, isBrace c = false := by
  intro c hc
  by_contra brace
  rw [Bool.not_eq_false] at brace
  have mem := Text.mem_of_mem_join hc (toNat_lt_of_isBrace brace)
  rw [hx c mem] at brace
  cases brace

/-- Joining halves leaves the cut of a template alone. -/
theorem pieces_join {s : List Char} (h : Matched s)
    (whole : ∀ name, Piece.name name ∈ pieces s → Text.joined name = name) {x : List Char}
    (hx : ∀ c ∈ x, isBrace c = false) :
    Alike (pieces (join (x ++ s))) (x.map .char ++ pieces s) := by
  -- The characters in front of the next brace are joined at once, so they are collected in `x`.
  induction h generalizing x with
  | nil =>
    rw [List.append_nil, ← List.append_nil (join x), pieces_append_plain (join_plain hx)]
    exact (alike_join x).append (.refl _)
  | @plain c s hc _ ih =>
    rw [pieces_plain hc] at whole ⊢
    have more : ∀ d ∈ x ++ [c], isBrace d = false := by simpa [or_imp, forall_and] using ⟨hx, hc⟩
    have rest := ih (fun name mem => whole name (List.mem_cons_of_mem _ mem)) more
    simpa using rest
  | @doubled c s hc _ ih =>
    rw [pieces_doubled hc] at whole ⊢
    have small := toNat_lt_of_isBrace hc
    have rest := ih (fun name mem => whole name (List.mem_cons_of_mem _ mem)) (x := [])
      (by simp)
    have cut : join (x ++ c :: c :: s) = join x ++ c :: c :: join s := by
      rw [Text.join_append_cons small, ← List.nil_append (c :: s), Text.join_append_cons small]
      rfl
    rw [cut, pieces_append_plain (join_plain hx), pieces_doubled hc]
    exact (alike_join x).append ((Alike.refl [.char c]).append rest)
  | @placeholder name s hn _ ih =>
    rw [pieces_placeholder hn] at whole ⊢
    have rest := ih (fun name mem => whole name (List.mem_cons_of_mem _ mem)) (x := [])
      (by simp)
    have kept : join name = name := by
      simpa [Text.joined_eq_self_iff] using whole (String.ofList name) List.mem_cons_self
    have cut : join (x ++ '\x7b' :: (name ++ '\x7d' :: s)) =
        join x ++ '\x7b' :: (name ++ '\x7d' :: join s) := by
      rw [Text.join_append_cons (by decide), Text.join_append_cons (by decide), kept]
    rw [cut, pieces_append_plain (join_plain hx), pieces_placeholder hn]
    exact (alike_join x).append ((Alike.refl [.name (String.ofList name)]).append rest)

/-! ## Filling in what was written -/

theorem Segment.names_pieces (segment : Segment) :
    segment.pieces.filterMap Piece.name? = segment.name?.toList := by
  cases segment with
  | literal text => simp [pieces, name?, Piece.name?]
  | placeholder name => rfl

theorem Segment.content_pieces (segment : Segment) (values : Table String) :
    segment.pieces.flatMap (Piece.content values) = (segment.content values).toList := by
  cases segment with
  | literal text => simp [pieces, content, List.flatMap_map, Piece.content]
  | placeholder name => simp [pieces, content, Piece.content]

section
variable {segments : List Segment} {values : Table String}

theorem pieces_render (segments : List Segment) :
    Alike (pieces (render segments).toList) (segments.flatMap Segment.pieces) := by
  have whole : ∀ name, Piece.name name ∈ pieces (segments.flatMap Segment.chars) →
      Text.joined name = name := by
    intro name mem
    rw [pieces_chars] at mem
    obtain ⟨segment, -, mem⟩ := List.mem_flatMap.1 mem
    cases segment with
    | literal text => simp [Segment.pieces] at mem
    | placeholder name' =>
      cases List.mem_singleton.1 mem
      exact name'.whole
  have cut := pieces_join (matched_chars segments) whole (x := []) (by simp)
  rw [pieces_chars] at cut
  rw [render, Text.joined_eq, String.toList_ofList, String.toList_ofList]
  exact cut

theorem matched_render (segments : List Segment) : Matched (render segments).toList :=
  matched_iff.2 fun c hc => stray_not_mem_pieces segments c ((pieces_render segments).stray hc)

theorem placeholders_render (segments : List Segment) :
    placeholders (render segments) = (names segments).eraseDups := by
  have named : (segments.flatMap Segment.pieces).filterMap Piece.name? = names segments := by
    rw [List.filterMap_flatMap, names, List.filterMap_eq_flatMap_toList]
    simp only [Segment.names_pieces]
  rw [placeholders_eq, (pieces_render segments).names, named]

theorem fill_render (h : ∀ name ∈ names segments, (values.get? name).isSome) :
    fill (render segments) values =
      .ok (Text.joined (String.join (segments.map (Segment.content values)))) := by
  have known : ∀ name ∈ placeholders (render segments), (values.get? name).isSome := by
    intro name mem
    rw [placeholders_render] at mem
    exact h name (List.mem_eraseDups.1 mem)
  have content : (segments.flatMap Segment.pieces).flatMap (Piece.content values) =
      segments.flatMap fun segment => (segment.content values).toList := by
    simp only [List.flatMap_assoc, Segment.content_pieces]
  rw [fill_of_matched known (matched_render segments), Text.joined_eq, Text.joined_eq,
    String.toList_ofList, (pieces_render segments).filled values, content, String.toList_join,
    List.flatMap_map]

/-- A matched text is what is written for the characters and names in it. -/
theorem exists_segments {s : List Char} (h : Matched s) :
    ∃ segments : List Segment, join s = join (segments.flatMap Segment.chars) := by
  induction h with
  | nil => exact ⟨[], rfl⟩
  | @plain c s hc _ ih =>
    obtain ⟨segments, whole⟩ := ih
    refine ⟨.literal (String.singleton c) :: segments, ?_⟩
    rw [← List.singleton_append, List.flatMap_cons]
    exact Text.join_append_congr (by simp [Segment.chars, hc]) whole
  | @doubled c s hc _ ih =>
    obtain ⟨segments, whole⟩ := ih
    refine ⟨.literal (String.singleton c) :: segments, ?_⟩
    have front : c :: c :: s = [c, c] ++ s := rfl
    rw [front, List.flatMap_cons]
    exact Text.join_append_congr (by simp [Segment.chars, hc]) whole
  | @placeholder name s hn _ ih =>
    obtain ⟨segments, whole⟩ := ih
    let kept : Name := ⟨Text.joined (String.ofList name), ?_, Text.joined_joined _⟩
    · refine ⟨.placeholder kept :: segments, ?_⟩
      have closed : join ('\x7d' :: s) = join ('\x7d' :: segments.flatMap Segment.chars) :=
        Text.join_append_congr (s := ['\x7d']) rfl whole
      have named : join (name ++ '\x7d' :: s) =
          join (join name ++ '\x7d' :: segments.flatMap Segment.chars) :=
        Text.join_append_congr (Text.join_join name).symm closed
      have opened := Text.join_append_congr (s := ['\x7b']) rfl named
      simpa [Segment.chars, kept, Text.joined_eq] using opened
    · simpa [Text.joined_eq] using join_plain hn

/-- **Templates escape exactly.** What is written for segments stands for their contents in their
order, where the values go in as they are, and its placeholders are the names among the segments. A
template that can be filled in with some values is, with its halves joined, written for segments. -/
theorem render_escapes (segments : List Segment) :
    (∀ values : Table String, (∀ name ∈ names segments, (values.get? name).isSome) →
      fill (render segments) values =
        .ok (Text.joined (String.join (segments.map (Segment.content values))))) ∧
    FirstUses (names segments) (placeholders (render segments)) ∧
    ∀ (template : String) (values : Table String) (text : String),
      fill template values = .ok text → ∃ others, Text.joined template = render others := by
  refine ⟨fun values h => fill_render h, ?_, ?_⟩
  · rw [placeholders_render]
    exact firstUses_eraseDups (names segments)
  · intro template values text filled
    obtain ⟨others, whole⟩ := exists_segments (matched_of_fill filled)
    refine ⟨others, ?_⟩
    rw [render, Text.joined_eq, whole, Text.joined_eq, String.toList_ofList]

/-- Braces of texts next to a placeholder, a placeholder without a name, and values with braces. -/
theorem render_escapes_of_adjacent :
    ∃ segments : List Segment,
      render segments = "\x7b\x7b\x7bx\x7d\x7d\x7d\x7b\x7d\x7bx\x7d\x7b\x7b" ∧
      names segments = ["x", "", "x"] ∧
      fill (render segments) [("", "\x7d\x7d"), ("x", "\x7bx\x7d")] =
        .ok "\x7b\x7bx\x7d\x7d\x7d\x7d\x7bx\x7d\x7b" ∧
      FirstUses ["x", "", "x"] (placeholders (render segments)) ∧
      ∃ others, Text.joined "\x7b\x7b\x7bx\x7d" = render others := by
  let x : Name := ⟨"x", by simp [isBrace], by cbv⟩
  let unnamed : Name := ⟨"", by simp, by cbv⟩
  let segments : List Segment := [.literal "\x7b", .placeholder x, .literal "\x7d",
    .placeholder unnamed, .placeholder x, .literal "\x7b"]
  obtain ⟨filled, uses, written⟩ := render_escapes segments
  refine ⟨segments, by cbv, rfl, ?_, uses, written _ [("x", "")] "\x7b" (by cbv)⟩
  exact (filled [("", "\x7d\x7d"), ("x", "\x7bx\x7d")] (by decide)).trans (by cbv)

end

end DepClause.Template
