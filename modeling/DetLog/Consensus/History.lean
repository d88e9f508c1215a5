import Mathlib.Data.Finset.Card
import Mathlib.Data.Set.Insert
import Mathlib.Logic.Function.Basic
import Mathlib.Logic.Relation
import Mathlib.Tactic

/-!
# Histories of a replicated log

What a term-based replicated log has done so far, seen from stable storage: which
terms every node has reached, whom it voted for in each of them, which log it
campaigned with, which node led a term and which log that leader built, and how
far a node has acknowledged the log of a term's leader. Nothing here mentions
messages, timers or volatile state; a protocol refines this file by saying which
of its own steps perform which step of a history.

## Prefixes instead of indexes

A log is a list of entries, each carrying the *stamp* (term) under which it was
written. Positions are avoided throughout: the statement “the entry at index `n`
has stamp `t`” is the statement that a nonempty prefix has last stamp `t`
(`Consensus.lastStamp`), and agreement up to an index is the prefix relation.

## The one log of a term

`Consensus.History.leaderLog` keeps *one* list per term, the log of the node that
leads it, and only ever extends it. A log *traces* a history
(`Consensus.History.Traces`) when each of its nonempty prefixes is a prefix of the
leader log of its last stamp. That is log matching in a form which is preserved
step by step, and it also says that stamps never decrease
(`Consensus.History.Inv.stamp_le`).
-/

namespace Consensus

/-! ### Quorums -/

/-- A family of sets of nodes, any two of which meet. -/
structure QuorumSystem (ι : Type*) where
  /-- The sets that may decide. -/
  IsQuorum : Finset ι → Prop
  /-- Two deciding sets share a node. -/
  inter : ∀ {A B : Finset ι}, IsQuorum A → IsQuorum B → ∃ x, x ∈ A ∧ x ∈ B

/-- The majorities of a finite set of members. -/
def majority {ι : Type*} [DecidableEq ι] (members : Finset ι) : QuorumSystem ι where
  IsQuorum A := A ⊆ members ∧ members.card < 2 * A.card
  inter := by
    rintro A B ⟨hA, hAc⟩ ⟨hB, hBc⟩
    by_contra hne
    have hdis : Disjoint A B := Finset.disjoint_left.mpr fun x hxA hxB => hne ⟨x, hxA, hxB⟩
    have hle : (A ∪ B).card ≤ members.card := Finset.card_le_card (Finset.union_subset hA hB)
    rw [Finset.card_union_of_disjoint hdis] at hle
    omega

/-! ### Stamped entries -/

/-- Entries of a replicated log: each carries the term under which it was
written. -/
class Stamped (ε : Type*) where
  /-- The term an entry was written in. -/
  stamp : ε → ℕ

export Stamped (stamp)

section LastStamp

variable {ε : Type*} [Stamped ε] {l : List ε} {e : ε}

/-- The stamp of the last entry, `0` for the empty log. -/
def lastStamp (l : List ε) : ℕ := (l.getLast?.map stamp).getD 0

@[simp] theorem lastStamp_nil : lastStamp ([] : List ε) = 0 := rfl

@[simp] theorem lastStamp_concat : lastStamp (l ++ [e]) = stamp e := by
  simp [lastStamp]

/-- A nonempty log ends in an entry that carries its last stamp. -/
theorem exists_concat_of_ne_nil (h : l ≠ []) : ∃ p e, l = p ++ [e] ∧ lastStamp l = stamp e := by
  obtain rfl | ⟨p, e, rfl⟩ := l.eq_nil_or_concat'
  · exact absurd rfl h
  · exact ⟨p, e, rfl, lastStamp_concat⟩

theorem ne_nil_of_lastStamp_pos (h : 0 < lastStamp l) : l ≠ [] := by
  rintro rfl
  exact absurd h (by simp)

/-- **The freshness comparison of an election**: a log with a later last stamp,
or the same last stamp and at least the length. -/
def UpToDate (l l' : List ε) : Prop :=
  lastStamp l' < lastStamp l ∨ (lastStamp l' = lastStamp l ∧ l'.length ≤ l.length)

end LastStamp

/-! ### Taking over a prefix of a leader's log -/

section Splice

variable {ε : Type*} {l p : List ε}

open Classical in
/-- What accepting the first `k` entries of a leader's log leaves: nothing changes
when they are there already, and otherwise they become the whole log. -/
noncomputable def splice (leader : List ε) (k : ℕ) (l : List ε) : List ε :=
  if leader.take k <+: l then l else leader.take k

/-- The accepted entries are there afterwards. -/
theorem take_prefix_splice {leader : List ε} {k : ℕ} : leader.take k <+: splice leader k l := by
  unfold splice
  split_ifs with h
  · exact h
  · exact List.prefix_rfl

/-- An accepted append leaves the log, or what was accepted becomes the log. -/
theorem splice_cases (leader : List ε) (k : ℕ) (l : List ε) :
    splice leader k l = l ∨ (¬leader.take k <+: l ∧ splice leader k l = leader.take k) := by
  unfold splice
  split_ifs with h
  · exact Or.inl rfl
  · exact Or.inr ⟨h, rfl⟩

/-- A prefix of a log that agrees with a leader below it survives a splice: the
splice either keeps the log or writes a prefix at least as long. -/
theorem prefix_splice {leader : List ε} {k : ℕ} (hl : p <+: l) (hp : p <+: leader) :
    p <+: splice leader k l := by
  rcases splice_cases leader k l with h | ⟨hne, h⟩
  · rwa [h]
  · rw [h]
    have htake : leader.take k <+: leader := List.take_prefix k leader
    rcases List.prefix_or_prefix_of_prefix hp htake with h' | h'
    · exact h'
    · exact absurd (h'.trans hl) hne

end Splice

/-! ### Histories and their steps -/

variable {ι ε : Type*}

/-- **The history of a replicated log.** Every component is on stable storage or
is a fact that, once true, stays true. -/
structure History (ι ε : Type*) where
  /-- The term a node has durably reached. -/
  term : ι → ℕ
  /-- The durable vote of a node in a term. -/
  vote : ι → ℕ → Option ι
  /-- The log a node campaigned with in a term. -/
  ballot : ι → ℕ → Option (List ε)
  /-- The durable log of a node. -/
  log : ι → List ε
  /-- The node that led a term. -/
  led : ℕ → Option ι
  /-- The log the leader of a term has built. -/
  leaderLog : ℕ → List ε
  /-- How many entries of the leader log of a term a node has acknowledged. -/
  ack : ι → ℕ → ℕ

namespace History

variable {h₁ h₂ h₃ : History ι ε}

/-- The history before anything happened. -/
def initial : History ι ε where
  term _ := 0
  vote _ _ := none
  ballot _ _ := none
  log _ := []
  led _ := none
  leaderLog _ := []
  ack _ _ := 0

/-- Node `i` takes the lead of term `t` with log `l`. -/
def lead (h : History ι ε) (i : ι) (t : ℕ) (l : List ε) : History ι ε :=
  { h with
    led := Function.update h.led t (some i)
    leaderLog := Function.update h.leaderLog t l }

/-- The leader of term `t` appends an entry. -/
def propose (h : History ι ε) (t : ℕ) (e : ε) : History ι ε :=
  { h with leaderLog := Function.update h.leaderLog t (h.leaderLog t ++ [e]) }

section Operations

variable [DecidableEq ι]

/-- Node `i` reaches term `t`. -/
def observe (h : History ι ε) (i : ι) (t : ℕ) : History ι ε :=
  { h with term := Function.update h.term i t }

/-- Node `i` reaches term `t` and votes for `c` in it. -/
def castVote (h : History ι ε) (i : ι) (t : ℕ) (c : ι) : History ι ε :=
  { h.observe i t with vote := Function.update h.vote i (Function.update (h.vote i) t (some c)) }

/-- Node `i` campaigns for term `t` with the log it holds. -/
def campaign (h : History ι ε) (i : ι) (t : ℕ) : History ι ε :=
  { h.castVote i t i with
    ballot := Function.update h.ballot i (Function.update (h.ballot i) t (some (h.log i))) }

/-- Node `i` durably takes over the first `k` entries of the leader log of term
`t`, and acknowledges them. -/
noncomputable def accept (h : History ι ε) (i : ι) (t k : ℕ) : History ι ε :=
  { h.observe i t with
    log := Function.update h.log i (splice (h.leaderLog t) k (h.log i))
    ack := Function.update h.ack i (Function.update (h.ack i) t (max (h.ack i t) k)) }

/-- **The steps of a history**, by the node that takes them. -/
inductive Step [Stamped ε] (Q : QuorumSystem ι) (i : ι) : History ι ε → History ι ε → Prop
  /-- A node learns of a later term. -/
  | observe {h : History ι ε} (t : ℕ) (ht : h.term i ≤ t) : Step Q i h (h.observe i t)
  /-- A node starts an election in a term it has not reached. -/
  | campaign {h : History ι ε} (t : ℕ) (ht : h.term i < t) : Step Q i h (h.campaign i t)
  /-- A node that has not voted in a term votes for a candidate with an
  up-to-date log. -/
  | grant {h : History ι ε} (t : ℕ) (c : ι) (l : List ε) (ht : h.term i ≤ t)
      (hvote : h.vote i t = none) (hballot : h.ballot c t = some l)
      (hup : UpToDate l (h.log i)) : Step Q i h (h.castVote i t c)
  /-- A candidate with a quorum of votes leads its term. -/
  | lead {h : History ι ε} (t : ℕ) (l : List ε) (A : Finset ι) (hA : Q.IsQuorum A)
      (hvotes : ∀ x ∈ A, h.vote x t = some i) (hballot : h.ballot i t = some l)
      (hled : h.led t = none) : Step Q i h (h.lead i t l)
  /-- A leader extends its log. -/
  | propose {h : History ι ε} (t : ℕ) (e : ε) (hled : h.led t = some i) (he : stamp e = t) :
      Step Q i h (h.propose t e)
  /-- A node takes over a prefix of a leader's log. -/
  | accept {h : History ι ε} (t k : ℕ) (hled : h.led t ≠ none) (ht : h.term i ≤ t)
      (hk : k ≤ (h.leaderLog t).length) : Step Q i h (h.accept i t k)

/-! ### What a step changes -/

/-- An entry of a table is changed, and no other one. -/
theorem update_update_of_ne {γ : Type*} {i j : ι} {s t : ℕ} (f : ι → ℕ → γ) (v : γ)
    (hjs : j ≠ i ∨ s ≠ t) :
    Function.update f i (Function.update (f i) t v) j s = f j s := by
  by_cases hj : j = i
  · subst hj
    rw [Function.update_self, Function.update_of_ne (hjs.resolve_left (not_not.mpr rfl))]
  · rw [Function.update_of_ne hj]

variable (h : History ι ε) (i : ι) (t : ℕ) {j : ι} {s : ℕ}

@[simp] theorem observe_term_self : (h.observe i t).term i = t := by simp [observe]

@[simp] theorem observe_term_of_ne (hj : j ≠ i) : (h.observe i t).term j = h.term j := by
  simp [observe, hj]

@[simp] theorem castVote_vote_self (c : ι) : (h.castVote i t c).vote i t = some c := by
  simp [castVote]

theorem castVote_vote_of_ne (c : ι) (hjs : j ≠ i ∨ s ≠ t) :
    (h.castVote i t c).vote j s = h.vote j s :=
  update_update_of_ne _ _ hjs

variable {h i t} in
/-- A vote is the one just cast, or an older one. -/
theorem castVote_vote_cases {c d : ι} (hv : (h.castVote i t c).vote j s = some d) :
    (j = i ∧ s = t ∧ d = c) ∨ h.vote j s = some d := by
  by_cases hjs : j = i ∧ s = t
  · rw [hjs.1, hjs.2, castVote_vote_self] at hv
    exact Or.inl ⟨hjs.1, hjs.2, (Option.some.inj hv).symm⟩
  · rw [castVote_vote_of_ne _ _ _ _ (by tauto)] at hv
    exact Or.inr hv

@[simp] theorem campaign_ballot_self : (h.campaign i t).ballot i t = some (h.log i) := by
  simp [campaign]

theorem campaign_ballot_of_ne (hjs : j ≠ i ∨ s ≠ t) :
    (h.campaign i t).ballot j s = h.ballot j s :=
  update_update_of_ne _ _ hjs

@[simp] theorem accept_log_self (k : ℕ) :
    (h.accept i t k).log i = splice (h.leaderLog t) k (h.log i) := by simp [accept]

@[simp] theorem accept_log_of_ne (k : ℕ) (hj : j ≠ i) :
    (h.accept i t k).log j = h.log j := by simp [accept, hj]

@[simp] theorem accept_ack_self (k : ℕ) :
    (h.accept i t k).ack i t = max (h.ack i t) k := by simp [accept]

theorem accept_ack_of_ne (k : ℕ) (hjs : j ≠ i ∨ s ≠ t) :
    (h.accept i t k).ack j s = h.ack j s :=
  update_update_of_ne _ _ hjs

end Operations

section Leaders

variable (h : History ι ε) (i : ι) (t : ℕ) {s : ℕ}

@[simp] theorem lead_led_self (l : List ε) : (h.lead i t l).led t = some i := by simp [lead]

@[simp] theorem lead_led_of_ne (l : List ε) (hs : s ≠ t) :
    (h.lead i t l).led s = h.led s := by simp [lead, hs]

@[simp] theorem lead_leaderLog_self (l : List ε) : (h.lead i t l).leaderLog t = l := by
  simp [lead]

@[simp] theorem lead_leaderLog_of_ne (l : List ε) (hs : s ≠ t) :
    (h.lead i t l).leaderLog s = h.leaderLog s := by simp [lead, hs]

@[simp] theorem propose_leaderLog_self (e : ε) :
    (h.propose t e).leaderLog t = h.leaderLog t ++ [e] := by simp [propose]

@[simp] theorem propose_leaderLog_of_ne (e : ε) (hs : s ≠ t) :
    (h.propose t e).leaderLog s = h.leaderLog s := by simp [propose, hs]

end Leaders

/-! ### Histories only grow -/

/-- **Recorded facts stay recorded.** -/
structure Grows (h h' : History ι ε) : Prop where
  term_le : ∀ j, h.term j ≤ h'.term j
  vote_keep : ∀ {j t c}, h.vote j t = some c → h'.vote j t = some c
  ballot_keep : ∀ {j t l}, h.ballot j t = some l → h'.ballot j t = some l
  led_keep : ∀ {t j}, h.led t = some j → h'.led t = some j
  leaderLog_le : ∀ t, h.leaderLog t <+: h'.leaderLog t
  ack_le : ∀ j t, h.ack j t ≤ h'.ack j t

/-- **Nothing has happened at node `i`**: its stable storage is as before, and so is
everything it leads. -/
structure Untouched (i : ι) (h h' : History ι ε) : Prop where
  term_eq : h'.term i = h.term i
  log_eq : h'.log i = h.log i
  vote_eq : h'.vote i = h.vote i
  led_back : ∀ {t}, h'.led t = some i → h.led t = some i
  leaderLog_eq : ∀ {t}, h.led t = some i → h'.leaderLog t = h.leaderLog t

/-- **What the steps of node `i` do**: the history grows, and the other nodes are left
alone. -/
structure Extends (i : ι) (h h' : History ι ε) : Prop extends Grows h h' where
  others : ∀ {j}, j ≠ i → Untouched j h h'

theorem Grows.refl (h : History ι ε) : Grows h h where
  term_le _ := le_rfl
  vote_keep hv := hv
  ballot_keep hb := hb
  led_keep hl := hl
  leaderLog_le _ := List.prefix_rfl
  ack_le _ _ := le_rfl

/-- Growth composes. -/
theorem Grows.trans (h₁₂ : Grows h₁ h₂) (h₂₃ : Grows h₂ h₃) :
    Grows h₁ h₃ where
  term_le j := (h₁₂.term_le j).trans (h₂₃.term_le j)
  vote_keep hv := h₂₃.vote_keep (h₁₂.vote_keep hv)
  ballot_keep hb := h₂₃.ballot_keep (h₁₂.ballot_keep hb)
  led_keep hl := h₂₃.led_keep (h₁₂.led_keep hl)
  leaderLog_le t := (h₁₂.leaderLog_le t).trans (h₂₃.leaderLog_le t)
  ack_le j t := (h₁₂.ack_le j t).trans (h₂₃.ack_le j t)

theorem Untouched.refl (i : ι) (h : History ι ε) : Untouched i h h where
  term_eq := rfl
  log_eq := rfl
  vote_eq := rfl
  led_back hl := hl
  leaderLog_eq _ := rfl

theorem Extends.refl (i : ι) (h : History ι ε) : Extends i h h :=
  ⟨Grows.refl h, fun _ => Untouched.refl _ h⟩

theorem Untouched.trans {i : ι} (h₁₂ : Untouched i h₁ h₂) (h₂₃ : Untouched i h₂ h₃)
    (hg : Grows h₁ h₂) : Untouched i h₁ h₃ where
  term_eq := h₂₃.term_eq.trans h₁₂.term_eq
  log_eq := h₂₃.log_eq.trans h₁₂.log_eq
  vote_eq := h₂₃.vote_eq.trans h₁₂.vote_eq
  led_back hl := h₁₂.led_back (h₂₃.led_back hl)
  leaderLog_eq hl := (h₂₃.leaderLog_eq (hg.led_keep hl)).trans (h₁₂.leaderLog_eq hl)

/-- Extensions by one node compose. -/
theorem Extends.trans {i : ι} (h₁₂ : Extends i h₁ h₂) (h₂₃ : Extends i h₂ h₃) : Extends i h₁ h₃ :=
  ⟨h₁₂.toGrows.trans h₂₃.toGrows,
    fun hj => (h₁₂.others hj).trans (h₂₃.others hj) h₁₂.toGrows⟩

end History

end Consensus
