import DetLog.Model

/-!
# Log matching

The observer of a simulated cluster compares the logs of all nodes. Log matching speaks about every
common index of two logs, and about everything up to there; `DetLog.checkLogMatching` makes one
forward pass over two logs and carries along whether they have been equal so far.

`DetLog.checkLogMatching_ok_iff` says that the pass decides the property. The flag never recovers:
once two entries differ, an equal term at any later index is a violation, and as long as none do,
the logs are equal up to where the pass has come.
-/

namespace DetLog

/-- What the comparison reads of a node. -/
structure NodeSnapshot where
  id : NodeId
  log : List LogEntry
  deriving DecidableEq

/-- A verdict and its reason. -/
structure InvariantResult where
  ok : Bool := true
  detail : String := ""
  deriving DecidableEq, Repr

/-- The entries are numbered from one on, after so many others. -/
def consecutiveAfter (offset : ℕ) : List LogEntry → Bool
  | [] => true
  | entry :: log => entry.index = offset + 1 && consecutiveAfter (offset + 1) log

/-- The first index at which two logs have the same term and are not equal up to there, after so
many other entries, which were equal or not. -/
def matchingViolation (prefixEqual : Bool) (offset : ℕ) : List LogEntry → List LogEntry → Option ℕ
  | left :: lefts, right :: rights =>
    let prefixEqual := prefixEqual && left = right
    if left.term = right.term ∧ prefixEqual = false then some (offset + 1)
    else matchingViolation prefixEqual (offset + 1) lefts rights
  | _, _ => none

/-- The loops over the pairs. -/
def checkPairs : List NodeSnapshot → Option String
  | [] => none
  | left :: rest =>
    (rest.findSome? fun right => (matchingViolation true 0 left.log right.log).map fun index =>
      s!"Log Matching violated between nodes {left.id} and {right.id} at index {index}").or
      (checkPairs rest)

/-- The check of the observer. -/
def checkLogMatching (snapshots : List NodeSnapshot) : InvariantResult :=
  match snapshots.find? fun node => !consecutiveAfter 0 node.log with
  | some node => ⟨false, s!"snapshot log is not consecutive on node {node.id}"⟩
  | none =>
    match checkPairs snapshots with
    | some detail => ⟨false, detail⟩
    | none => {}

/-! ### The property -/

/-- A log is numbered from one on. -/
def Consecutive (log : List LogEntry) : Prop := ∀ i e, log[i]? = some e → e.index = i + 1

/-- **Log matching**: two entries with the same index and term make the logs equal up to there. -/
def LogsMatch (left right : List LogEntry) : Prop :=
  ∀ i l r, left[i]? = some l → right[i]? = some r → l.term = r.term →
    left.take (i + 1) = right.take (i + 1)

theorem LogsMatch.symm {left right : List LogEntry} (h : LogsMatch left right) :
    LogsMatch right left :=
  fun i l r hl hr ht => (h i r l hr hl ht.symm).symm

theorem logsMatch_self (log : List LogEntry) : LogsMatch log log := fun _ _ _ _ _ _ => rfl

/-! ### The passes -/

theorem consecutiveAfter_iff (offset : ℕ) (log : List LogEntry) :
    consecutiveAfter offset log = true ↔ ∀ i e, log[i]? = some e → e.index = offset + i + 1 := by
  induction log generalizing offset with
  | nil => simp [consecutiveAfter]
  | cons entry log ih =>
    rw [consecutiveAfter, Bool.and_eq_true, decide_eq_true_eq, ih]
    constructor
    · rintro ⟨hentry, hlog⟩ (_ | i) e he
      · obtain rfl := Option.some.inj he
        exact hentry
      · rw [hlog i e he]
        omega
    · intro h
      refine ⟨h 0 entry rfl, fun i e he => ?_⟩
      rw [h (i + 1) e he]
      omega

/-- **One pass over two logs**, after entries that were equal or not. -/
theorem matchingViolation_eq_none_iff (prefixEqual : Bool) (offset : ℕ)
    (lefts rights : List LogEntry) :
    matchingViolation prefixEqual offset lefts rights = none ↔
      ∀ i l r, lefts[i]? = some l → rights[i]? = some r → l.term = r.term →
        prefixEqual = true ∧ lefts.take (i + 1) = rights.take (i + 1) := by
  induction lefts generalizing prefixEqual offset rights with
  | nil => simp [matchingViolation]
  | cons left lefts ih =>
    cases rights with
    | nil => simp [matchingViolation]
    | cons right rights =>
      rw [matchingViolation]
      constructor
      · intro h
        split_ifs at h with hviolated
        rintro (_ | i) l r hl hr hterm
        · obtain rfl := Option.some.inj hl
          obtain rfl := Option.some.inj hr
          simpa [hterm] using hviolated
        · obtain ⟨hequal, htake⟩ := (ih _ _ _).mp h i l r hl hr hterm
          rw [Bool.and_eq_true, decide_eq_true_eq] at hequal
          exact ⟨hequal.1, by rw [List.take_succ_cons, List.take_succ_cons, htake, hequal.2]⟩
      · intro h
        rw [if_neg]
        · refine (ih _ _ _).mpr fun i l r hl hr hterm => ?_
          obtain ⟨hequal, htake⟩ := h (i + 1) l r hl hr hterm
          rw [List.take_succ_cons, List.take_succ_cons, List.cons.injEq] at htake
          simp [hequal, htake.1, htake.2]
        · rintro ⟨hterm, hequal⟩
          obtain ⟨hbefore, htake⟩ := h 0 left right rfl rfl hterm
          simp_all

theorem checkPairs_eq_none_iff (snapshots : List NodeSnapshot) :
    checkPairs snapshots = none ↔
      snapshots.Pairwise fun left right => LogsMatch left.log right.log := by
  induction snapshots with
  | nil => simp [checkPairs]
  | cons left rest ih =>
    rw [checkPairs, Option.or_eq_none_iff, ih, List.pairwise_cons, List.findSome?_eq_none_iff]
    simp only [Option.map_eq_none_iff, matchingViolation_eq_none_iff, true_and, LogsMatch]

/-- **The check decides log matching**, for any logs of any nodes. -/
theorem checkLogMatching_ok_iff (snapshots : List NodeSnapshot) :
    (checkLogMatching snapshots).ok = true ↔
      (∀ node ∈ snapshots, Consecutive node.log) ∧
      ∀ left ∈ snapshots, ∀ right ∈ snapshots, LogsMatch left.log right.log := by
  have hsymm : Std.Symm fun left right : NodeSnapshot => LogsMatch left.log right.log :=
    ⟨fun _ _ h => h.symm⟩
  have hpairs : (snapshots.Pairwise fun left right => LogsMatch left.log right.log) ↔
      ∀ left ∈ snapshots, ∀ right ∈ snapshots, LogsMatch left.log right.log :=
    ⟨fun h left hl right hr =>
      h.forall_of_forall (fun node _ => logsMatch_self node.log) hl hr,
      List.pairwise_of_forall_mem_list⟩
  have hnumbered : (∀ node ∈ snapshots, Consecutive node.log) ↔
      snapshots.find? (fun node => !consecutiveAfter 0 node.log) = none := by
    simp [Consecutive, consecutiveAfter_iff]
  rw [hnumbered, ← hpairs, ← checkPairs_eq_none_iff, checkLogMatching]
  cases snapshots.find? fun node => !consecutiveAfter 0 node.log with
  | some node => simp
  | none => cases checkPairs snapshots <;> simp

end DetLog
