import DetLog.Consensus.Safety

/-!
# Operations under way

A node prepares a change, hands it to its stable storage and waits; meanwhile the other
nodes go on. This module says which changes a node can have under way
(`Consensus.Operation`) and when it may start one (`Consensus.Operation.Enabled`), and
that what the others do in between does not matter: the operation stays enabled
(`Consensus.Operation.Enabled.mono`), and the history it will lead to grows in the same
way as the history it starts from (`Consensus.Operation.Enabled.run_grows`,
`Consensus.Operation.Enabled.run_untouched`). So a statement about a waiting node can be
made once, about the history after its operation.
-/

namespace Consensus

/-- **The changes of a node's stable storage.** -/
inductive Operation (ι : Type*)
  /-- Reach a term. -/
  | observe (t : ℕ)
  /-- Start an election in a term. -/
  | campaign (t : ℕ)
  /-- Vote for a candidate in a term. -/
  | grant (t : ℕ) (c : ι)
  /-- Take over the first entries of the log of a term's leader. -/
  | accept (t k : ℕ)

namespace Operation

open History

variable {ι ε : Type*} [DecidableEq ι] [Stamped ε]

/-- The history after an operation. -/
noncomputable def run (h : History ι ε) (i : ι) : Operation ι → History ι ε
  | observe t => h.observe i t
  | campaign t => h.campaign i t
  | grant t c => h.castVote i t c
  | accept t k => h.accept i t k

/-- What an operation asks for. -/
def Enabled (h : History ι ε) (i : ι) : Operation ι → Prop
  | observe t => h.term i ≤ t
  | campaign t => h.term i < t
  | grant t c => h.term i ≤ t ∧ h.vote i t = none ∧
      ∃ l, h.ballot c t = some l ∧ UpToDate l (h.log i)
  | accept t k => h.led t ≠ none ∧ h.term i ≤ t ∧ k ≤ (h.leaderLog t).length

variable {h h' : History ι ε} {i : ι} {op : Operation ι}

theorem Enabled.step (he : op.Enabled h i) (Q : QuorumSystem ι) : Step Q i h (op.run h i) := by
  cases op with
  | observe t => exact .observe t he
  | campaign t => exact .campaign t he
  | grant t c =>
    obtain ⟨ht, hv, l, hb, hup⟩ := he
    exact .grant t c l ht hv hb hup
  | accept t k => exact .accept t k he.1 he.2.1 he.2.2

omit [DecidableEq ι] in
/-- **What other nodes do leaves an operation enabled.** -/
theorem Enabled.mono (he : op.Enabled h i) (hg : Grows h h') (hu : Untouched i h h') :
    op.Enabled h' i := by
  cases op with
  | observe t => exact hu.term_eq.trans_le he
  | campaign t => exact hu.term_eq.trans_lt he
  | grant t c =>
    obtain ⟨ht, hv, l, hb, hup⟩ := he
    refine ⟨hu.term_eq.trans_le ht, by rw [hu.vote_eq, hv], l, hg.ballot_keep hb, ?_⟩
    rwa [hu.log_eq]
  | accept t k =>
    obtain ⟨hled, ht, hk⟩ := he
    refine ⟨?_, hu.term_eq.trans_le ht, hk.trans (hg.leaderLog_le t).length_le⟩
    obtain ⟨j, hj⟩ := Option.ne_none_iff_exists'.mp hled
    rw [hg.led_keep hj]
    simp

omit [Stamped ε] in
/-- The entries a node takes over are there to stay. -/
theorem splice_eq_of_isPrefix {leader leader' l : List ε} {k : ℕ} (hk : k ≤ leader.length)
    (hp : leader <+: leader') : splice leader' k l = splice leader k l := by
  obtain ⟨s, rfl⟩ := hp
  rw [splice, splice, List.take_append_of_le_length hk]

omit [Stamped ε] in
/-- The term and the vote that an operation leaves do not depend on the other nodes. -/
theorem run_term_vote (hu : Untouched i h h') :
    (op.run h' i).term i = (op.run h i).term i ∧ (op.run h' i).vote i = (op.run h i).vote i := by
  cases op <;>
    simp [run, History.observe, History.campaign, castVote, History.accept, hu.vote_eq]

/-- Nor does the log. -/
theorem Enabled.run_log (he : op.Enabled h i) (hg : Grows h h') (hu : Untouched i h h') :
    (op.run h' i).log i = (op.run h i).log i := by
  cases op with
  | accept t k =>
    simp only [run, accept_log_self, hu.log_eq]
    exact splice_eq_of_isPrefix he.2.2 (hg.leaderLog_le t)
  | _ => exact hu.log_eq

omit [Stamped ε] in
theorem run_led (op : Operation ι) (h : History ι ε) (i : ι) : (op.run h i).led = h.led := by
  cases op <;> rfl

omit [Stamped ε] in
theorem run_leaderLog (op : Operation ι) (h : History ι ε) (i : ι) :
    (op.run h i).leaderLog = h.leaderLog := by
  cases op <;> rfl

/-- **The node does not notice**: after its operation it is where it would have been. -/
theorem Enabled.run_untouched (he : op.Enabled h i) (hg : Grows h h') (hu : Untouched i h h') :
    Untouched i (op.run h i) (op.run h' i) where
  term_eq := (run_term_vote hu).1
  log_eq := he.run_log hg hu
  vote_eq := (run_term_vote hu).2
  led_back hl := by
    rw [run_led] at hl ⊢
    exact hu.led_back hl
  leaderLog_eq hl := by
    rw [run_led] at hl
    rw [run_leaderLog, run_leaderLog]
    exact hu.leaderLog_eq hl

/-- **Growth is carried over an operation.** -/
theorem Enabled.run_grows (he : op.Enabled h i) (hg : Grows h h') (hu : Untouched i h h') :
    Grows (op.run h i) (op.run h' i) where
  term_le j := by
    rcases eq_or_ne j i with rfl | hj
    · exact (run_term_vote hu).1.ge
    · have := hg.term_le j
      cases op <;>
        simpa [run, History.observe, History.campaign, castVote, History.accept, hj] using this
  vote_keep {j t c} hv := by
    rcases eq_or_ne j i with rfl | hj
    · rwa [(run_term_vote hu).2]
    · have hkeep : h.vote j t = some c → h'.vote j t = some c := hg.vote_keep
      cases op <;>
        simpa [run, History.observe, History.campaign, castVote, History.accept, hj] using
          hkeep (by simpa [run, History.observe, History.campaign, castVote, History.accept, hj]
            using hv)
  ballot_keep {j t l} hb := by
    cases op with
    -- Only a campaign writes a ballot, and it writes the log, which nobody has touched.
    | campaign s =>
      by_cases hjs : j = i ∧ t = s
      · obtain ⟨rfl, rfl⟩ := hjs
        simp only [run, campaign_ballot_self] at hb ⊢
        rw [hu.log_eq, hb]
      · simp only [run] at hb ⊢
        rw [campaign_ballot_of_ne _ _ _ (by tauto)] at hb ⊢
        exact hg.ballot_keep hb
    | _ => exact hg.ballot_keep hb
  led_keep {t j} hl := by
    rw [run_led] at hl ⊢
    exact hg.led_keep hl
  leaderLog_le t := by
    rw [run_leaderLog, run_leaderLog]
    exact hg.leaderLog_le t
  ack_le j t := by
    cases op with
    | accept s k =>
      have := hg.ack_le j t
      by_cases hjs : j = i ∧ t = s
      · obtain ⟨rfl, rfl⟩ := hjs
        simp only [run, accept_ack_self]
        exact max_le_max this le_rfl
      · simp only [run]
        rwa [accept_ack_of_ne _ _ _ _ (by tauto), accept_ack_of_ne _ _ _ _ (by tauto)]
    | _ => exact hg.ack_le j t

end Operation

end Consensus
