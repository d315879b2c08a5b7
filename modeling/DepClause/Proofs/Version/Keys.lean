import DepClause.Proofs.Comparison
import DepClause.Version.Order

/-!
# The order of versions by keys

Each part of a version has a key, a list of numbers, and parts compare as their keys do. Where one
version has a part and the other has none, the first number of the key decides. So the order of
versions is transitive.
-/

namespace DepClause

/-- A word opens with a zero and a number with a one. -/
def LocalPart.key : LocalPart → List Nat
  | .word w => 0 :: Text.units w.toList
  | .number n => [1, n]

theorem LocalPart.compare_eq (p q : LocalPart) : p.compare q = Ord.compare p.key q.key := by
  cases p with
  | number m =>
    cases q with
    | number n => simp [LocalPart.compare, key, List.compare_cons_cons]
    | word w => rfl
  | word v =>
    cases q with
    | number n => rfl
    | word w => simp [LocalPart.compare, key, Text.compareUnits, List.compare_cons_cons]

instance : Std.TransCmp LocalPart.compare := transCmp_of_keys _ LocalPart.key LocalPart.compare_eq

instance : Std.TransCmp compareLocals :=
  inferInstanceAs (Std.TransCmp (List.compareLex LocalPart.compare))

namespace Version

def preKey (v : Version) : List Nat :=
  match v.pre with
  | some p => [1, p.phase.rank, p.number]
  | none => [v.preRank]

def devKey (v : Version) : List Nat :=
  match v.dev with
  | some n => [0, n]
  | none => [1]

theorem preRank_of_some {v : Version} {p : PreRelease} (h : v.pre = some p) : v.preRank = 1 := by
  simp [preRank, h]

theorem preRank_of_none {v : Version} (h : v.pre = none) : v.preRank = 0 ∨ v.preRank = 2 := by
  simp only [preRank, h, Option.isSome_none, Bool.false_eq_true, if_false]
  split
  · exact .inl rfl
  · exact .inr rfl

theorem comparePre_eq (v w : Version) : comparePre v w = Ord.compare v.preKey w.preKey := by
  unfold comparePre preKey
  cases hv : v.pre with
  | none =>
    cases hw : w.pre with
    | none => simp [List.compare_cons_cons]
    | some q =>
      rw [preRank_of_some hw]
      rcases preRank_of_none hv with h | h <;> rw [h] <;> rfl
  | some p =>
    cases hw : w.pre with
    | none =>
      rw [preRank_of_some hv]
      rcases preRank_of_none hw with h | h <;> rw [h] <;> rfl
    | some q => simp [preRank_of_some hv, preRank_of_some hw, List.compare_cons_cons]

theorem comparePost_eq (v w : Version) :
    comparePost v w = Ord.compare v.post.toList w.post.toList := by
  unfold comparePost
  cases v.post <;> cases w.post <;> simp

theorem compareDev_eq (v w : Version) : compareDev v w = Ord.compare v.devKey w.devKey := by
  unfold compareDev devKey
  cases v.dev with
  | none => cases w.dev <;> rfl
  | some m =>
    cases w.dev with
    | none => rfl
    | some n => simp [List.compare_cons_cons]

theorem compareLocal_eq (v w : Version) :
    compareLocal v w = List.compareLex compareLocals v.localParts.toList w.localParts.toList := by
  unfold compareLocal
  cases v.localParts with
  | none => cases w.localParts <;> rfl
  | some ps =>
    cases w.localParts with
    | none => rfl
    | some qs =>
      simp only [Option.toList_some, List.compareLex_cons_cons]
      exact Ordering.then_eq.symm

instance : Std.TransCmp compareRelease :=
  transCmp_of_keys (List.compareLex Ord.compare) (fun v => trimZeros 1 v.release) fun _ _ => rfl

instance : Std.TransCmp comparePre := transCmp_of_keys _ preKey comparePre_eq

instance : Std.TransCmp comparePost := transCmp_of_keys _ (fun v => v.post.toList) comparePost_eq

instance : Std.TransCmp compareDev := transCmp_of_keys _ devKey compareDev_eq

instance : Std.TransCmp compareLocal :=
  transCmp_of_keys _ (fun v => v.localParts.toList) compareLocal_eq

instance : Std.TransCmp compare :=
  inferInstanceAs (Std.TransCmp (compareLex (compareOn epoch) (compareLex compareRelease
    (compareLex comparePre (compareLex comparePost (compareLex compareDev compareLocal))))))

end Version

end DepClause
