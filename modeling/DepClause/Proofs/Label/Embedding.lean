import DepClause.Proofs.Label.Encoding
import DepClause.Proofs.Version.Release

/-!
# Labels keep the order of versions

The runs of two labels are compared piece by piece, in the order in which versions are. Where one
version has a piece and the other has none, the run that opens the piece meets a run of another
kind: a number lies above all of them, a letter run (`post`) above a caret, the end and a tilde, and
a tilde (`dev`, or a pre-release) below everything.
-/

namespace DepClause

namespace Label

/-- A list of runs whose first run is of a kind with such a rank. -/
def Opens (p : Nat → Prop) (rs : List Run) : Prop := ∃ r qs, rs = r :: qs ∧ p r.lead.rank

theorem Opens.mono {p q : Nat → Prop} (h : ∀ n, p n → q n) {rs : List Run} (hr : Opens p rs) :
    Opens q rs := by
  obtain ⟨r, qs, rfl, hp⟩ := hr
  exact ⟨r, qs, rfl, h _ hp⟩

theorem compareRuns_lt {k : Nat} {rs ss : List Run} (hr : Opens (· < k) rs)
    (hs : Opens (k ≤ ·) ss) : compareRuns rs ss = .lt := by
  obtain ⟨r, qs, rfl, hr⟩ := hr
  obtain ⟨s, ts, rfl, hs⟩ := hs
  have hlt : r.lead.rank < s.lead.rank := Nat.lt_of_lt_of_le hr hs
  rw [compareRuns_of_lead_ne _ _ fun h => Nat.ne_of_lt hlt (congrArg Lead.rank h)]
  exact Nat.compare_eq_lt.2 hlt

theorem compareRuns_gt {k : Nat} {rs ss : List Run} (hr : Opens (k ≤ ·) rs)
    (hs : Opens (· < k) ss) : compareRuns rs ss = .gt := by
  obtain ⟨r, qs, rfl, hr⟩ := hr
  obtain ⟨s, ts, rfl, hs⟩ := hs
  have hlt : s.lead.rank < r.lead.rank := Nat.lt_of_lt_of_le hs hr
  rw [compareRuns_of_lead_ne _ _ fun h => Nat.ne_of_gt hlt (congrArg Lead.rank h)]
  exact Nat.compare_eq_gt.2 hlt

theorem compareRuns_tilde (rs ss : List Run) :
    compareRuns (.tilde :: rs) (.tilde :: ss) = compareRuns rs ss := rfl

theorem compareRuns_number (m n : Nat) (rs ss : List Run) :
    compareRuns (.number m :: rs) (.number n :: ss) = (Ord.compare m n).then (compareRuns rs ss) :=
  compareRuns_cons _ _ rs ss

theorem compareRuns_letters (v w : List Nat) (rs ss : List Run) :
    compareRuns (.letters v :: rs) (.letters w :: ss) = (Ord.compare v w).then (compareRuns rs ss) :=
  compareRuns_cons _ _ rs ss

/-- A word that both sides have does not count. -/
theorem compareRuns_word (w : List Nat) (rs ss : List Run) :
    compareRuns (.letters w :: rs) (.letters w :: ss) = compareRuns rs ss := by
  rw [compareRuns_letters, Std.ReflOrd.compare_self, Ordering.eq_then]

/-- Releases decide before what stands behind them: a number lies above all of it. -/
theorem compareRuns_numbers (ms ns : List Nat) {rs ss : List Run} (hr : Opens (· < 4) rs)
    (hs : Opens (· < 4) ss) :
    compareRuns (ms.map .number ++ rs) (ns.map .number ++ ss) =
      (List.compareLex Ord.compare ms ns).then (compareRuns rs ss) := by
  induction ms generalizing ns with
  | nil =>
    cases ns with
    | nil => rfl
    | cons n ns => exact compareRuns_lt hr ⟨.number n, _, rfl, Nat.le_refl 4⟩
  | cons m ms ih =>
    cases ns with
    | nil => exact compareRuns_gt ⟨.number m, _, rfl, Nat.le_refl 4⟩ hs
    | cons n ns =>
      simp only [List.map_cons, List.cons_append]
      rw [compareRuns_number, ih, List.compareLex_cons_cons, Ordering.then_assoc]

end Label

namespace Version

open Label (Run Opens compareRuns)

section
variable {v w : Version} {rs ss : List Run}

/-- Post-releases, where what follows opens below a letter run. -/
theorem compareRuns_postRuns (hr : Opens (· < 3) rs) (hs : Opens (· < 3) ss) :
    compareRuns (v.postRuns ++ rs) (w.postRuns ++ ss) =
      (comparePost v w).then (compareRuns rs ss) := by
  unfold postRuns comparePost
  cases v.post with
  | none =>
    cases w.post with
    | none => rfl
    | some n => exact Label.compareRuns_lt hr ⟨.letters _, _, rfl, Nat.le_refl 3⟩
  | some m =>
    cases w.post with
    | none => exact Label.compareRuns_gt ⟨.letters _, _, rfl, Nat.le_refl 3⟩ hs
    | some n =>
      simp only [List.cons_append, List.nil_append]
      rw [Label.compareRuns_word, Label.compareRuns_number]

/-- The mark of a development version of a pre-release or post-release. -/
def devMark (v : Version) : List Run :=
  match v.dev with
  | none => []
  | some n => [.tilde, .letters ("dev".toList.map Char.toNat), .number n]

/-- Development versions, where what follows does not open with a tilde. -/
theorem compareRuns_devMark (hr : Opens (1 ≤ ·) rs) (hs : Opens (1 ≤ ·) ss) :
    compareRuns (v.devMark ++ rs) (w.devMark ++ ss) =
      (compareDev v w).then (compareRuns rs ss) := by
  unfold devMark compareDev
  cases v.dev with
  | none =>
    cases w.dev with
    | none => rfl
    | some n => exact Label.compareRuns_gt hr ⟨.tilde, _, rfl, Nat.zero_lt_one⟩
  | some m =>
    cases w.dev with
    | none => exact Label.compareRuns_lt ⟨.tilde, _, rfl, Nat.zero_lt_one⟩ hs
    | some n =>
      simp only [List.cons_append, List.nil_append]
      rw [Label.compareRuns_tilde, Label.compareRuns_word, Label.compareRuns_number]

end

theorem localRuns_opens (v : Version) : Opens (fun k => 1 ≤ k ∧ k < 3) v.localRuns := by
  unfold localRuns
  split
  · exact ⟨.caret, _, rfl, by decide⟩
  · exact ⟨.stop, _, rfl, by decide⟩

theorem devMark_opens (v : Version) : Opens (· < 3) (v.devMark ++ v.localRuns) := by
  unfold devMark
  split
  · exact (localRuns_opens v).mono fun _ h => h.2
  · exact ⟨.tilde, _, rfl, by decide⟩

/-- What stands behind the pre-release, unless the version is a development version of its release
itself. -/
def tailRuns (v : Version) : List Run := v.postRuns ++ (v.devMark ++ v.localRuns)

theorem compareRuns_tailRuns (v w : Version) :
    compareRuns v.tailRuns w.tailRuns = (comparePost v w).then ((compareDev v w).then
      (compareRuns v.localRuns w.localRuns)) := by
  rw [tailRuns, tailRuns, compareRuns_postRuns (devMark_opens v) (devMark_opens w),
    compareRuns_devMark ((localRuns_opens v).mono fun _ h => h.1)
      ((localRuns_opens w).mono fun _ h => h.1)]

def markRuns (v : Version) : List Run :=
  v.preRuns ++ (v.postRuns ++ (v.devRuns ++ v.localRuns))

/-- What stands behind the release, for the three ranks that a version can have there. -/
inductive Shape (v : Version) : List Run → Prop where
  | dev {n : Nat} (pre : v.pre = none) (post : v.post = none) (dev : v.dev = some n) :
      Shape v (.tilde :: .tilde :: .letters ("dev".toList.map Char.toNat) :: .number n ::
        v.localRuns)
  | pre {p : PreRelease} (pre : v.pre = some p) :
      Shape v (.tilde :: .letters (p.phase.label.toList.map Char.toNat) :: .number p.number ::
        v.tailRuns)
  | final (pre : v.pre = none) (rank : v.preRank = 2) (opens : Opens (fun k => 1 ≤ k ∧ k < 4) v.tailRuns) :
      Shape v v.tailRuns

theorem devRuns_eq_devMark {v : Version} (h : v.pre.isSome || v.post.isSome) :
    v.devRuns = v.devMark := by
  unfold devRuns devMark
  cases v.dev with
  | none => rfl
  | some n => exact if_pos h

theorem shape (v : Version) : Shape v v.markRuns := by
  cases hpre : v.pre with
  | some p =>
    have h : v.markRuns = .tilde :: .letters (p.phase.label.toList.map Char.toNat) ::
        .number p.number :: v.tailRuns := by
      rw [markRuns, preRuns, hpre, devRuns_eq_devMark (by simp [hpre])]
      rfl
    exact h ▸ .pre hpre
  | none =>
    cases hpost : v.post with
    | some n =>
      have h : v.markRuns = v.tailRuns := by
        rw [markRuns, preRuns, hpre, devRuns_eq_devMark (by simp [hpost])]
        rfl
      have opens : Opens (fun k => 1 ≤ k ∧ k < 4) v.tailRuns := by
        rw [tailRuns, postRuns, hpost]
        exact ⟨.letters _, _, rfl, by decide⟩
      exact h ▸ .final hpre (by simp [preRank, hpre, hpost]) opens
    | none =>
      cases hdev : v.dev with
      | some n =>
        have h : v.markRuns = .tilde :: .tilde :: .letters ("dev".toList.map Char.toNat) ::
            .number n :: v.localRuns := by
          simp [markRuns, preRuns, postRuns, devRuns, hpre, hpost, hdev]
        exact h ▸ .dev hpre hpost hdev
      | none =>
        have h : v.markRuns = v.tailRuns := by
          simp [markRuns, tailRuns, preRuns, postRuns, devRuns, devMark, hpre, hpost, hdev]
        have opens : Opens (fun k => 1 ≤ k ∧ k < 4) v.tailRuns := by
          simp only [tailRuns, postRuns, devMark, hpost, hdev, List.nil_append]
          exact (localRuns_opens v).mono fun _ h => ⟨h.1, Nat.lt_succ_of_lt h.2⟩
        exact h ▸ .final hpre (by simp [preRank, hpre, hpost, hdev]) opens

/-- All of it lies below a number, so the release decides first. -/
theorem markRuns_opens (v : Version) : Opens (· < 4) v.markRuns := by
  have sv := shape v
  generalize v.markRuns = rs at sv ⊢
  cases sv with
  | dev => exact ⟨.tilde, _, rfl, show 0 < 4 by decide⟩
  | pre => exact ⟨.tilde, _, rfl, show 0 < 4 by decide⟩
  | final _ _ opens => exact opens.mono fun _ h => h.2

theorem comparePre_of_rank_ne {v w : Version} (h : v.preRank ≠ w.preRank) :
    comparePre v w = Ord.compare v.preRank w.preRank := by
  have hne : Ord.compare v.preRank w.preRank ≠ .eq := fun he => h (Nat.compare_eq_eq.1 he)
  rw [comparePre]
  cases hc : Ord.compare v.preRank w.preRank with
  | lt => rfl
  | eq => exact absurd hc hne
  | gt => rfl

theorem comparePre_of_final {v w : Version} (hv : v.pre = none) (h : v.preRank = w.preRank) :
    comparePre v w = .eq := by
  rw [comparePre, h, Std.ReflOrd.compare_self, hv]
  rfl

theorem compare_phase_label (p q : Phase) :
    Ord.compare (p.label.toList.map Char.toNat) (q.label.toList.map Char.toNat) =
      Ord.compare p.rank q.rank := by
  cases p <;> cases q <;> decide

/-- What stands behind the release compares as versions do: pre-releases, post-releases and
development versions in this order, and local parts at last. -/
theorem compareRuns_markRuns (v w : Version) :
    compareRuns v.markRuns w.markRuns = (comparePre v w).then ((comparePost v w).then
      ((compareDev v w).then (compareRuns v.localRuns w.localRuns))) := by
  have rank_dev {v : Version} {n : Nat} (pre : v.pre = none) (post : v.post = none)
      (dev : v.dev = some n) : v.preRank = 0 := by simp [preRank, pre, post, dev]
  have rank_pre {v : Version} {p : PreRelease} (pre : v.pre = some p) : v.preRank = 1 := by
    simp [preRank, pre]
  have sv := shape v
  have sw := shape w
  generalize v.markRuns = rs at sv ⊢
  generalize w.markRuns = ss at sw ⊢
  cases sv with
  | dev vpre vpost vdev =>
    have hv := rank_dev vpre vpost vdev
    cases sw with
    | dev wpre wpost wdev =>
      have hw := rank_dev wpre wpost wdev
      rw [comparePre_of_final vpre (hv.trans hw.symm)]
      simp only [comparePost, compareDev, vpost, wpost, vdev, wdev, Ordering.eq_then]
      rw [Label.compareRuns_tilde, Label.compareRuns_tilde, Label.compareRuns_word,
        Label.compareRuns_number]
    | pre wpre =>
      rw [comparePre_of_rank_ne (by simp [hv, rank_pre wpre]), hv, rank_pre wpre]
      rfl
    | final wpre wrank opens =>
      rw [comparePre_of_rank_ne (by simp [hv, wrank]), hv, wrank]
      exact Label.compareRuns_lt ⟨.tilde, _, rfl, Nat.zero_lt_one⟩
        (opens.mono fun _ h => h.1)
  | pre vpre =>
    have hv := rank_pre vpre
    cases sw with
    | dev wpre wpost wdev =>
      rw [comparePre_of_rank_ne (by simp [hv, rank_dev wpre wpost wdev]), hv,
        rank_dev wpre wpost wdev]
      rfl
    | pre wpre =>
      rw [Label.compareRuns_tilde, Label.compareRuns_letters, Label.compareRuns_number,
        compareRuns_tailRuns, compare_phase_label]
      simp only [comparePre, hv, rank_pre wpre, vpre, wpre, Std.ReflOrd.compare_self,
        Ordering.eq_then, Ordering.then_assoc]
    | final wpre wrank opens =>
      rw [comparePre_of_rank_ne (by simp [hv, wrank]), hv, wrank]
      exact Label.compareRuns_lt ⟨.tilde, _, rfl, Nat.zero_lt_one⟩
        (opens.mono fun _ h => h.1)
  | final vpre vrank vopens =>
    cases sw with
    | dev wpre wpost wdev =>
      rw [comparePre_of_rank_ne (by simp [vrank, rank_dev wpre wpost wdev]), vrank,
        rank_dev wpre wpost wdev]
      exact Label.compareRuns_gt (vopens.mono fun _ h => h.1)
        ⟨.tilde, _, rfl, Nat.zero_lt_one⟩
    | pre wpre =>
      rw [comparePre_of_rank_ne (by simp [vrank, rank_pre wpre]), vrank, rank_pre wpre]
      exact Label.compareRuns_gt (vopens.mono fun _ h => h.1)
        ⟨.tilde, _, rfl, Nat.zero_lt_one⟩
    | final wpre wrank wopens =>
      rw [comparePre_of_final vpre (vrank.trans wrank.symm), compareRuns_tailRuns,
        Ordering.eq_then]

end Version

end DepClause
