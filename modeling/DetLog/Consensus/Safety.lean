import DetLog.Consensus.History

/-!
# Safety of a replicated log

Everything a replicated log promises, for every history
(`Consensus.History`) its steps can reach: one leader per term
(`Consensus.History.Inv.led_unique`), log matching
(`Consensus.History.Traces.prefix_of_lastStamp_eq`), leader completeness
(`Consensus.History.Chosen.prefix_leaderLog`) and agreement of settled prefixes
(`Consensus.History.Settled.comparable`).

## What a later leader may miss

The one delicate invariant is the third group of `Consensus.History.Inv`. An old
leader may count its acknowledgements late, when nodes that gave them have long
moved on, so “every later leader holds what a quorum has acknowledged” is not
preserved as it stands: the later leader may exist before the quorum is complete.
What is preserved is the disjunction: a later leader holds the prefix, or the
prefix is *blocked* (`Consensus.History.Blocked`), that is, some quorum has left
its term without acknowledging it. A blocked prefix stays blocked, and it is never
acknowledged by a quorum, because the two quorums would meet.
-/

namespace Consensus

namespace History

variable {ι ε : Type*} [Stamped ε] {p : List ε} {s t : ℕ}

/-! ### Logs that trace a history -/

/-- **A log traces a history** when each of its nonempty prefixes is a prefix of
the leader log of its last stamp. -/
def Traces (h : History ι ε) (l : List ε) : Prop :=
  ∀ p, p <+: l → p ≠ [] → p <+: h.leaderLog (lastStamp p)

theorem Traces.nil (h : History ι ε) : Traces h [] := fun _ hp hne =>
  absurd (List.eq_nil_of_prefix_nil hp) hne

theorem Traces.of_isPrefix {l l' : List ε} (ht : Traces h l) (hl : l' <+: l) :
    Traces h l' := fun p hp hne => ht p (hp.trans hl) hne

theorem Traces.mono {h h' : History ι ε} {l : List ε} (ht : Traces h l)
    (hle : ∀ t, h.leaderLog t <+: h'.leaderLog t) : Traces h' l := fun p hp hne =>
  (ht p hp hne).trans (hle _)

/-- **Log matching**: prefixes of two traced logs with the same last stamp and the
same length are equal; with different lengths one extends the other. -/
theorem Traces.prefix_of_lastStamp_eq {l l' p p' : List ε} (ht : Traces h l) (ht' : Traces h l')
    (hp : p <+: l) (hp' : p' <+: l') (hne : p ≠ []) (hs : lastStamp p = lastStamp p')
    (hlen : p.length ≤ p'.length) : p <+: p' := by
  have hne' : p' ≠ [] := by
    rintro rfl
    exact hne (List.length_eq_zero_iff.mp (Nat.le_zero.mp hlen))
  have h₁ := ht p hp hne
  have h₂ := ht' p' hp' hne'
  rw [hs] at h₁
  exact List.prefix_of_prefix_length_le h₁ h₂ hlen

/-! ### Stamped, blocked and chosen prefixes -/

/-- A nonempty prefix of the leader log of term `t` that ends in an entry of term
`t`: what that leader may declare committed. -/
def Stamp (h : History ι ε) (t : ℕ) (p : List ε) : Prop :=
  p <+: h.leaderLog t ∧ p ≠ [] ∧ lastStamp p = t

omit [Stamped ε] in
/-- **A prefix of length `n` is blocked in term `t`**: some quorum has left the
term without acknowledging it. -/
def Blocked (Q : QuorumSystem ι) (h : History ι ε) (t n : ℕ) : Prop :=
  ∃ A, Q.IsQuorum A ∧ ∀ x ∈ A, t < h.term x ∧ h.ack x t < n

/-- **A prefix is chosen in term `t`**: its last entry is of that term and a quorum
has acknowledged it. -/
def Chosen (Q : QuorumSystem ι) (h : History ι ε) (t : ℕ) (p : List ε) : Prop :=
  Stamp h t p ∧ ∃ A, Q.IsQuorum A ∧ ∀ x ∈ A, p.length ≤ h.ack x t

/-- **A prefix is settled** when it is empty or part of a chosen one. -/
def Settled (Q : QuorumSystem ι) (h : History ι ε) (p : List ε) : Prop :=
  p = [] ∨ ∃ t q, Chosen Q h t q ∧ p <+: q

variable {Q : QuorumSystem ι} {h : History ι ε}

/-- A quorum of acknowledgements and a blocking quorum would meet. -/
theorem Chosen.not_blocked (hc : Chosen Q h t p) :
    ¬Blocked Q h t p.length := by
  rintro ⟨B, hB, hblock⟩
  obtain ⟨-, A, hA, hack⟩ := hc
  obtain ⟨x, hxA, hxB⟩ := Q.inter hA hB
  have h₁ := hack x hxA
  have h₂ := (hblock x hxB).2
  omega

theorem Settled.of_isPrefix {p q : List ε} (hq : Settled Q h q) (hp : p <+: q) : Settled Q h p := by
  rcases hq with rfl | ⟨t, r, hr, hqr⟩
  · exact Or.inl (List.eq_nil_of_prefix_nil hp)
  · exact Or.inr ⟨t, r, hr, hp.trans hqr⟩

/-- **A prefix is settled by term `t`** when it is empty or part of one that was chosen in
this term or an earlier one. -/
def SettledBy (Q : QuorumSystem ι) (h : History ι ε) (t : ℕ) (p : List ε) : Prop :=
  p = [] ∨ ∃ s q, s ≤ t ∧ Chosen Q h s q ∧ p <+: q

theorem SettledBy.of_isPrefix {p q : List ε} (hq : SettledBy Q h t q) (hp : p <+: q) :
    SettledBy Q h t p := by
  rcases hq with rfl | ⟨s, r, hs, hr, hqr⟩
  · exact Or.inl (List.eq_nil_of_prefix_nil hp)
  · exact Or.inr ⟨s, r, hs, hr, hp.trans hqr⟩

theorem SettledBy.mono (hp : SettledBy Q h s p) (hst : s ≤ t) :
    SettledBy Q h t p :=
  hp.imp_right fun ⟨r, q, hr, hq⟩ => ⟨r, q, hr.trans hst, hq⟩

/-! ### The invariant -/

/-- **The invariant of a replicated log.** -/
structure Inv (Q : QuorumSystem ι) (h : History ι ε) : Prop where
  /-- A vote is cast in a term the voter has reached. -/
  vote_le : ∀ {i t c}, h.vote i t = some c → t ≤ h.term i
  /-- A vote goes to a node that campaigned. -/
  vote_ballot : ∀ {i t c}, h.vote i t = some c → ∃ l, h.ballot c t = some l
  /-- A node that campaigns votes for itself. -/
  ballot_vote : ∀ {i t l}, h.ballot i t = some l → h.vote i t = some i
  /-- A node campaigns with entries of earlier terms. -/
  ballot_lt : ∀ {i t l}, h.ballot i t = some l → ∀ e ∈ l, stamp e < t
  /-- A leader has a quorum of votes. -/
  led_quorum : ∀ {i t}, h.led t = some i → ∃ A, Q.IsQuorum A ∧ ∀ x ∈ A, h.vote x t = some i
  /-- A leader only appends entries of its term to the log it campaigned with. -/
  led_ballot : ∀ {i t}, h.led t = some i →
    ∃ l s, h.ballot i t = some l ∧ h.leaderLog t = l ++ s ∧ ∀ e ∈ s, stamp e = t
  /-- A term without a leader has no leader log. -/
  unled : ∀ {t}, h.led t = none → h.leaderLog t = []
  /-- A node holds entries of terms it has reached. -/
  log_le : ∀ {i}, ∀ e ∈ h.log i, stamp e ≤ h.term i
  /-- The durable logs trace the history. -/
  traces_log : ∀ i, Traces h (h.log i)
  /-- The logs of candidates trace the history. -/
  traces_ballot : ∀ {i t l}, h.ballot i t = some l → Traces h l
  /-- The leader logs trace the history. -/
  traces_leader : ∀ t, Traces h (h.leaderLog t)
  /-- An acknowledgement is given in a term the node has reached. -/
  ack_term : ∀ {i t}, 0 < h.ack i t → t ≤ h.term i
  /-- An acknowledgement does not run ahead of the leader. -/
  ack_len : ∀ i t, h.ack i t ≤ (h.leaderLog t).length
  /-- A node keeps what it acknowledged, unless it is blocked. -/
  carried : ∀ {i t p}, Stamp h t p → p.length ≤ h.ack i t →
    p <+: h.log i ∨ Blocked Q h t p.length
  /-- A node votes for candidates that hold what it acknowledged before, unless
  it is blocked. -/
  voted : ∀ {i s c l t p}, h.vote i s = some c → h.ballot c s = some l → t < s →
    Stamp h t p → p.length ≤ h.ack i t → p <+: l ∨ Blocked Q h t p.length
  /-- A later leader holds every stamped prefix, unless it is blocked. -/
  complete : ∀ {s t p}, h.led s ≠ none → t < s → Stamp h t p →
    p <+: h.leaderLog s ∨ Blocked Q h t p.length

namespace Inv

variable (inv : Inv Q h)
include inv

/-- A leader log holds entries up to its own term. -/
theorem leader_le : ∀ e ∈ h.leaderLog t, stamp e ≤ t := by
  intro e he
  cases hl : h.led t with
  | none =>
    rw [inv.unled hl] at he
    exact absurd he (by simp)
  | some i =>
    obtain ⟨l, s, hb, heq, hs⟩ := inv.led_ballot hl
    rw [heq, List.mem_append] at he
    rcases he with he | he
    · exact (inv.ballot_lt hb e he).le
    · exact (hs e he).le

/-- **Stamps never decrease along a traced log**: no entry of a prefix has a later
stamp than its last entry. -/
theorem stamp_le {l p : List ε} (ht : Traces h l) (hp : p <+: l) :
    ∀ e ∈ p, stamp e ≤ lastStamp p := by
  intro e he
  have hne : p ≠ [] := List.ne_nil_of_mem he
  exact inv.leader_le e ((ht p hp hne).mem he)

/-- Stamps never decrease along a log. -/
theorem sorted {l : List ε} (ht : Traces h l) : l.Pairwise fun e e' => stamp e ≤ stamp e' := by
  induction l using List.reverseRecOn with
  | nil => exact List.Pairwise.nil
  | append_singleton l e ih =>
    refine List.pairwise_append.mpr
      ⟨ih (ht.of_isPrefix (List.prefix_append _ _)), List.pairwise_singleton _ _, ?_⟩
    intro a ha b hb
    obtain rfl : b = e := by simpa using hb
    have := inv.stamp_le ht List.prefix_rfl a (List.mem_append_left _ ha)
    rwa [lastStamp_concat] at this

/-- **Election safety**: a quorum of votes in a term that has a leader elects that
leader. -/
theorem led_unique {i j : ι} {A : Finset ι} (hl : h.led t = some j) (hA : Q.IsQuorum A)
    (hvotes : ∀ x ∈ A, h.vote x t = some i) : i = j := by
  obtain ⟨B, hB, hvotes'⟩ := inv.led_quorum hl
  obtain ⟨x, hxA, hxB⟩ := Q.inter hA hB
  have h₁ := hvotes x hxA
  rw [hvotes' x hxB] at h₁
  exact (Option.some.inj h₁).symm

/-- A leader has reached its term. -/
theorem led_le {i : ι} (hl : h.led t = some i) : t ≤ h.term i := by
  obtain ⟨l, -, hb, -, -⟩ := inv.led_ballot hl
  exact inv.vote_le (inv.ballot_vote hb)

/-- A stamped prefix is over before the stamps of a later leader begin: a leader
log of a later term holds it among the entries its leader campaigned with. -/
theorem prefix_ballot {i : ι} {l p : List ε} (hl : h.led s = some i) (hb : h.ballot i s = some l)
    (hts : t < s) (hp : Stamp h t p) (hpre : p <+: h.leaderLog s) : p <+: l := by
  obtain ⟨l', r, hb', heq, hr⟩ := inv.led_ballot hl
  obtain rfl : l' = l := Option.some.inj (hb'.symm.trans hb)
  have hlpre : l' <+: h.leaderLog s := by
    rw [heq]
    exact List.prefix_append l' r
  rcases List.prefix_or_prefix_of_prefix hpre hlpre with h' | h'
  · exact h'
  -- the prefix reaches beyond the ballot, so its last entry would be of term `s`
  obtain ⟨q, rfl⟩ := h'
  obtain ⟨-, -, hstamp⟩ := hp
  rw [heq, List.prefix_append_right_inj] at hpre
  obtain rfl | ⟨q', e, rfl⟩ := q.eq_nil_or_concat'
  · rw [List.append_nil]
  · rw [← List.append_assoc, lastStamp_concat] at hstamp
    have he := hr e (hpre.mem (by simp))
    omega

/-- What a quorum of votes for a term says about an earlier one: every voter has
left it, so its acknowledgements are final. -/
theorem blocked_of_votes {c : ι} {s t n : ℕ} {A : Finset ι} (hA : Q.IsQuorum A)
    (hvotes : ∀ x ∈ A, h.vote x s = some c) (hts : t < s) (hack : ∀ x ∈ A, h.ack x t < n) :
    Blocked Q h t n :=
  ⟨A, hA, fun x hx => ⟨hts.trans_le (inv.vote_le (hvotes x hx)), hack x hx⟩⟩

end Inv

/-! ### The initial history -/

theorem inv_initial : Inv Q (initial : History ι ε) where
  vote_le hv := by simp [initial] at hv
  vote_ballot hv := by simp [initial] at hv
  ballot_vote hb := by simp [initial] at hb
  ballot_lt hb := by simp [initial] at hb
  led_quorum hl := by simp [initial] at hl
  led_ballot hl := by simp [initial] at hl
  unled _ := rfl
  log_le e he := by simp [initial] at he
  traces_log _ := Traces.nil _
  traces_ballot hb := by simp [initial] at hb
  traces_leader _ := Traces.nil _
  ack_term ha := by simp [initial] at ha
  ack_len _ _ := le_rfl
  carried hp _ := absurd (List.eq_nil_of_prefix_nil hp.1) hp.2.1
  voted hv := by simp [initial] at hv
  complete hl := absurd rfl hl

/-! ### A step extends the history -/

section Steps

variable [DecidableEq ι] {h' : History ι ε} {i : ι} {t : ℕ}

omit [Stamped ε] in
/-- A vote a node may still cast: none recorded in this term. -/
theorem extends_castVote {c : ι} (ht : h.term i ≤ t) (hv : h.vote i t = none) :
    Extends i h (h.castVote i t c) := by
  refine { Extends.refl i h with
    term_le := fun j => ?_, vote_keep := fun {j s d} hjs => ?_
    others := fun hj => { Untouched.refl _ h with
      term_eq := by simp [castVote, hj], vote_eq := by simp [castVote, hj] } }
  · rcases eq_or_ne j i with rfl | hj
    · simpa [castVote] using ht
    · simp [castVote, hj]
  · rw [castVote_vote_of_ne]
    · exact hjs
    · by_contra hcon
      push Not at hcon
      rw [hcon.1, hcon.2, hv] at hjs
      exact absurd hjs (by simp)

theorem Step.extends (inv : Inv Q h) (hstep : Step Q i h h') : Extends i h h' := by
  cases hstep with
  | observe t ht =>
    refine { Extends.refl i h with
      term_le := fun j => ?_
      others := fun hj => { Untouched.refl _ h with term_eq := by simp [hj] } }
    rcases eq_or_ne j i with rfl | hj
    · simpa using ht
    · simp [hj]
  | campaign t ht =>
    have hv : h.vote i t = none := by
      rw [Option.eq_none_iff_forall_ne_some]
      intro c hc
      exact absurd (inv.vote_le hc) (by omega)
    have ext := extends_castVote (c := i) ht.le hv
    refine { ext with
      ballot_keep := fun {j s l} hjs => ?_
      others := fun hj => { ext.others hj with } }
    rw [campaign_ballot_of_ne]
    · exact hjs
    · by_contra hcon
      push Not at hcon
      rw [hcon.1, hcon.2] at hjs
      exact absurd (inv.vote_le (inv.ballot_vote hjs)) (by omega)
  | grant t c l ht hvote hballot hup => exact extends_castVote ht hvote
  | lead t l A hA hvotes hballot hled =>
    have hne : ∀ {s j}, h.led s = some j → s ≠ t := by
      rintro s j hs rfl
      exact absurd (hled.symm.trans hs) (by simp)
    refine { Extends.refl i h with
      led_keep := fun {s j} hs => ?_, leaderLog_le := fun s => ?_
      others := fun {j} hj => { Untouched.refl _ h with
        led_back := fun {s} hs => ?_, leaderLog_eq := fun hs => ?_ } }
    · rw [lead_led_of_ne _ _ _ _ (hne hs)]
      exact hs
    · rcases eq_or_ne s t with rfl | hst
      · rw [inv.unled hled]
        exact List.nil_prefix
      · rw [lead_leaderLog_of_ne _ _ _ _ hst]
    · rcases eq_or_ne s t with rfl | hst
      · rw [lead_led_self] at hs
        exact absurd (Option.some.inj hs).symm hj
      · rwa [lead_led_of_ne _ _ _ _ hst] at hs
    · rw [lead_leaderLog_of_ne _ _ _ _ (hne hs)]
  | propose t e hled he =>
    refine { Extends.refl i h with
      leaderLog_le := fun s => ?_
      others := fun {j} hj => { Untouched.refl _ h with leaderLog_eq := fun {s} hs => ?_ } }
    · rcases eq_or_ne s t with rfl | hst
      · rw [propose_leaderLog_self]
        exact List.prefix_append _ _
      · rw [propose_leaderLog_of_ne _ _ _ hst]
    · have hst : s ≠ t := fun hst => by
        rw [hst, hled] at hs
        exact hj (Option.some.inj hs).symm
      rw [propose_leaderLog_of_ne _ _ _ hst]
  | accept t k hled ht hk =>
    refine { Extends.refl i h with
      term_le := fun j => ?_, ack_le := fun j s => ?_
      others := fun hj => { Untouched.refl _ h with
        term_eq := by simp [History.accept, hj], log_eq := by simp [hj] } }
    · rcases eq_or_ne j i with rfl | hj
      · simpa [History.accept] using ht
      · simp [History.accept, hj]
    · by_cases hjs : j = i ∧ s = t
      · rw [hjs.1, hjs.2, accept_ack_self]
        exact le_max_left _ _
      · rw [accept_ack_of_ne _ _ _ _ (by tauto)]

/-- Blocking is for good: a node that has left a term acknowledges nothing in it
any more. -/
theorem Step.blocked (inv : Inv Q h) (hstep : Step Q i h h') {t n : ℕ} (hb : Blocked Q h t n) :
    Blocked Q h' t n := by
  obtain ⟨A, hA, hblock⟩ := hb
  refine ⟨A, hA, fun x hx => ⟨(hblock x hx).1.trans_le ((hstep.extends inv).term_le x), ?_⟩⟩
  obtain ⟨hterm, hack⟩ := hblock x hx
  cases hstep with
  | accept s k hled hs hk =>
    have hne : x ≠ i ∨ t ≠ s := by
      by_contra hcon
      push Not at hcon
      rw [hcon.1] at hterm
      omega
    rw [accept_ack_of_ne _ _ _ _ hne]
    exact hack
  | _ => exact hack

/-! ### The invariant is preserved

Each step touches one group of the invariant. The steps that only move terms and
votes leave every log alone; `lead` and `propose` only move a leader log; `accept`
moves one durable log and one acknowledgement. -/

omit [DecidableEq ι] in
/-- **The freshness comparison carries what a voter holds**: a traced log that is
up to date with respect to a log holding a stamped prefix holds it as well, unless
the prefix is blocked. The log ends in the term of the voter's log, and then
extends it, or in a later one, whose leader holds the prefix. -/
theorem Inv.prefix_of_upToDate (inv : Inv Q h) {l l' p : List ε} (hl : Traces h l)
    (hl' : Traces h l') (hup : UpToDate l l') (hp : Stamp h t p) (hpl' : p <+: l') :
    p <+: l ∨ Blocked Q h t p.length := by
  obtain ⟨hpl, hne, hstamp⟩ := hp
  have hne' : l' ≠ [] := by
    rintro rfl
    exact hne (List.eq_nil_of_prefix_nil hpl')
  have hle : t ≤ lastStamp l' := by
    obtain ⟨q, e, rfl, he⟩ := exists_concat_of_ne_nil hne
    rw [← hstamp, he]
    exact inv.stamp_le hl' List.prefix_rfl e (hpl'.mem (by simp))
  rcases hup with hlt | ⟨heq, hlen⟩
  · -- the log ends in a later term, whose leader holds the prefix
    have hnel : l ≠ [] := ne_nil_of_lastStamp_pos (by omega)
    have hlead := hl l List.prefix_rfl hnel
    have hled : h.led (lastStamp l) ≠ none := by
      intro hcon
      rw [inv.unled hcon] at hlead
      exact hnel (List.eq_nil_of_prefix_nil hlead)
    rcases inv.complete hled (by omega) ⟨hpl, hne, hstamp⟩ with hpre | hblock
    · rcases List.prefix_or_prefix_of_prefix hpre hlead with h' | h'
      · exact Or.inl h'
      · -- the log would end inside the prefix, whose stamps are at most `t`
        obtain ⟨q, e, hq, he⟩ := exists_concat_of_ne_nil hnel
        have hmem : e ∈ p := h'.mem (by simp [hq])
        have := inv.stamp_le (inv.traces_leader t) hpl e hmem
        omega
    · exact Or.inr hblock
  · exact Or.inl (hpl'.trans
      (hl'.prefix_of_lastStamp_eq hl List.prefix_rfl List.prefix_rfl hne' heq hlen))

theorem Inv.observe (inv : Inv Q h) (ht : h.term i ≤ t) : Inv Q (h.observe i t) := by
  have hstep : Step Q i h (h.observe i t) := .observe t ht
  have ext := hstep.extends inv
  refine { inv with
    vote_le := fun hv => (inv.vote_le hv).trans (ext.term_le _)
    log_le := fun e he => (inv.log_le e he).trans (ext.term_le _)
    ack_term := fun ha => (inv.ack_term ha).trans (ext.term_le _)
    carried := fun hp ha => (inv.carried hp ha).imp id (hstep.blocked inv)
    voted := fun hv hb hts hp ha => (inv.voted hv hb hts hp ha).imp id (hstep.blocked inv)
    complete := fun hl hts hp => (inv.complete hl hts hp).imp id (hstep.blocked inv) }

/-- Casting a vote for a candidate preserves the invariant once the candidate is
known to hold what the voter acknowledged. -/
theorem Inv.grant (inv : Inv Q h) {c : ι} {l : List ε} (ht : h.term i ≤ t)
    (hvote : h.vote i t = none) (hballot : h.ballot c t = some l) (hup : UpToDate l (h.log i)) :
    Inv Q (h.castVote i t c) := by
  have hstep : Step Q i h (h.castVote i t c) := .grant t c l ht hvote hballot hup
  have ext := hstep.extends inv
  have hterm : (h.castVote i t c).term i = t := by simp [castVote]
  refine { inv with
    vote_le := fun {j s d} hv => ?_
    vote_ballot := fun {j s d} hv => ?_
    ballot_vote := fun hb => ext.vote_keep (inv.ballot_vote hb)
    led_quorum := fun hl => ?_
    log_le := fun e he => (inv.log_le e he).trans (ext.term_le _)
    ack_term := fun ha => (inv.ack_term ha).trans (ext.term_le _)
    carried := fun hp ha => (inv.carried hp ha).imp id (hstep.blocked inv)
    voted := fun {j s d l' u p} hv hb hts hp ha => ?_
    complete := fun hl hts hp => (inv.complete hl hts hp).imp id (hstep.blocked inv) }
  · rcases castVote_vote_cases hv with ⟨rfl, rfl, rfl⟩ | hv
    · rw [hterm]
    · exact (inv.vote_le hv).trans (ext.term_le j)
  · rcases castVote_vote_cases hv with ⟨rfl, rfl, rfl⟩ | hv
    · exact ⟨l, hballot⟩
    · exact inv.vote_ballot hv
  · obtain ⟨A, hA, hvotes⟩ := inv.led_quorum hl
    exact ⟨A, hA, fun x hx => ext.vote_keep (hvotes x hx)⟩
  · rcases castVote_vote_cases hv with ⟨rfl, rfl, rfl⟩ | hv
    · -- the vote just cast: freshness carries what the voter's log holds
      obtain rfl : l = l' := Option.some.inj (hballot.symm.trans hb)
      rcases inv.carried hp ha with hpre | hblock
      · exact (inv.prefix_of_upToDate (inv.traces_ballot hballot) (inv.traces_log j) hup hp
          hpre).imp id (hstep.blocked inv)
      · exact Or.inr (hstep.blocked inv hblock)
    · exact (inv.voted hv hb hts hp ha).imp id (hstep.blocked inv)

theorem Inv.campaign (inv : Inv Q h) (ht : h.term i < t) : Inv Q (h.campaign i t) := by
  have hstep : Step Q i h (h.campaign i t) := .campaign t ht
  have ext := hstep.extends inv
  have hterm : (h.campaign i t).term i = t := by simp [History.campaign, castVote]
  -- nobody can have voted for a candidate that had not campaigned yet
  have hfresh : h.ballot i t = none := by
    rw [Option.eq_none_iff_forall_ne_some]
    intro l hl
    exact absurd (inv.vote_le (inv.ballot_vote hl)) (by omega)
  have hvotes : ∀ {j s d}, (h.campaign i t).vote j s = some d →
      (j = i ∧ s = t ∧ d = i) ∨ h.vote j s = some d := castVote_vote_cases
  have hballots : ∀ {j s l}, (h.campaign i t).ballot j s = some l →
      (j = i ∧ s = t ∧ l = h.log i) ∨ h.ballot j s = some l := by
    intro j s l hb
    by_cases hjs : j = i ∧ s = t
    · rw [hjs.1, hjs.2, campaign_ballot_self] at hb
      exact Or.inl ⟨hjs.1, hjs.2, (Option.some.inj hb).symm⟩
    · rw [campaign_ballot_of_ne _ _ _ (by tauto)] at hb
      exact Or.inr hb
  refine { inv with
    vote_le := fun {j s d} hv => ?_
    vote_ballot := fun {j s d} hv => ?_
    ballot_vote := fun {j s l} hb => ?_
    ballot_lt := fun {j s l} hb => ?_
    led_quorum := fun hl => ?_
    led_ballot := fun hl => ?_
    log_le := fun e he => (inv.log_le e he).trans (ext.term_le _)
    traces_ballot := fun {j s l} hb => ?_
    ack_term := fun ha => (inv.ack_term ha).trans (ext.term_le _)
    carried := fun hp ha => (inv.carried hp ha).imp id (hstep.blocked inv)
    voted := fun {j s d l u p} hv hb hts hp ha => ?_
    complete := fun hl hts hp => (inv.complete hl hts hp).imp id (hstep.blocked inv) }
  · rcases hvotes hv with ⟨rfl, rfl, rfl⟩ | hv
    · rw [hterm]
    · exact (inv.vote_le hv).trans (ext.term_le j)
  · rcases hvotes hv with ⟨rfl, rfl, rfl⟩ | hv
    · exact ⟨_, campaign_ballot_self h d s⟩
    · obtain ⟨l, hl⟩ := inv.vote_ballot hv
      exact ⟨l, ext.ballot_keep hl⟩
  · rcases hballots hb with ⟨rfl, rfl, rfl⟩ | hb
    · exact castVote_vote_self h j s j
    · exact ext.vote_keep (inv.ballot_vote hb)
  · rcases hballots hb with ⟨rfl, rfl, rfl⟩ | hb
    · exact fun e he => (inv.log_le e he).trans_lt ht
    · exact inv.ballot_lt hb
  · obtain ⟨A, hA, hv⟩ := inv.led_quorum hl
    exact ⟨A, hA, fun x hx => ext.vote_keep (hv x hx)⟩
  · obtain ⟨l, r, hb, hlog⟩ := inv.led_ballot hl
    exact ⟨l, r, ext.ballot_keep hb, hlog⟩
  · rcases hballots hb with ⟨rfl, rfl, rfl⟩ | hb
    · exact inv.traces_log j
    · exact inv.traces_ballot hb
  · rcases hvotes hv with ⟨rfl, rfl, rfl⟩ | hv'
    · -- the candidate's own vote: its ballot is the log it holds
      obtain rfl : h.log d = l := by
        have := (campaign_ballot_self h d s).symm.trans hb
        exact Option.some.inj this
      exact (inv.carried hp ha).imp id (hstep.blocked inv)
    · rcases hballots hb with ⟨rfl, rfl, rfl⟩ | hb'
      · obtain ⟨l, hl⟩ := inv.vote_ballot hv'
        rw [hfresh] at hl
        exact absurd hl (by simp)
      · exact (inv.voted hv' hb' hts hp ha).imp id (hstep.blocked inv)

theorem Inv.lead (inv : Inv Q h) {l : List ε} {A : Finset ι} (hA : Q.IsQuorum A)
    (hvotes : ∀ x ∈ A, h.vote x t = some i) (hballot : h.ballot i t = some l)
    (hled : h.led t = none) : Inv Q (h.lead i t l) := by
  have hstep : Step Q i h (h.lead i t l) := .lead t l A hA hvotes hballot hled
  have ext := hstep.extends inv
  -- the ballot holds no entry of its own term, so it brings no stamped prefix of it
  have hstamp : ∀ {s p}, Stamp (h.lead i t l) s p → s ≠ t ∧ Stamp h s p := by
    rintro s p ⟨hp, hne, hs⟩
    have hst : s ≠ t := by
      rintro rfl
      rw [lead_leaderLog_self] at hp
      obtain ⟨q, e, rfl, he⟩ := exists_concat_of_ne_nil hne
      have := inv.ballot_lt hballot e (hp.mem (by simp))
      omega
    rw [lead_leaderLog_of_ne _ _ _ _ hst] at hp
    exact ⟨hst, hp, hne, hs⟩
  refine { inv with
    led_quorum := fun {j s} hl => ?_
    led_ballot := fun {j s} hl => ?_
    unled := fun {s} hl => ?_
    traces_log := fun j => (inv.traces_log j).mono ext.leaderLog_le
    traces_ballot := fun hb => (inv.traces_ballot hb).mono ext.leaderLog_le
    traces_leader := fun s => ?_
    ack_len := fun j s => (inv.ack_len j s).trans (ext.leaderLog_le s).length_le
    carried := fun hp ha => (inv.carried (hstamp hp).2 ha).imp id (hstep.blocked inv)
    voted := fun hv hb hts hp ha =>
      (inv.voted hv hb hts (hstamp hp).2 ha).imp id (hstep.blocked inv)
    complete := fun {s u p} hl hus hp => ?_ }
  · rcases eq_or_ne s t with rfl | hst
    · rw [lead_led_self] at hl
      obtain rfl := Option.some.inj hl
      exact ⟨A, hA, hvotes⟩
    · rw [lead_led_of_ne _ _ _ _ hst] at hl
      exact inv.led_quorum hl
  · rcases eq_or_ne s t with rfl | hst
    · rw [lead_led_self] at hl
      obtain rfl : i = j := Option.some.inj hl
      exact ⟨l, [], hballot, by simp, by simp⟩
    · rw [lead_led_of_ne _ _ _ _ hst] at hl
      rw [lead_leaderLog_of_ne _ _ _ _ hst]
      exact inv.led_ballot hl
  · rcases eq_or_ne s t with rfl | hst
    · rw [lead_led_self] at hl
      exact absurd hl (by simp)
    · rw [lead_led_of_ne _ _ _ _ hst] at hl
      rw [lead_leaderLog_of_ne _ _ _ _ hst]
      exact inv.unled hl
  · rcases eq_or_ne s t with rfl | hst
    · rw [lead_leaderLog_self]
      exact (inv.traces_ballot hballot).mono ext.leaderLog_le
    · rw [lead_leaderLog_of_ne _ _ _ _ hst]
      exact (inv.traces_leader s).mono ext.leaderLog_le
  · rcases eq_or_ne s t with rfl | hst
    · -- a voter acknowledged the prefix and voted for a log that holds it, or none did
      rw [lead_leaderLog_self]
      by_cases hex : ∃ x ∈ A, p.length ≤ h.ack x u
      · obtain ⟨x, hx, hax⟩ := hex
        exact (inv.voted (hvotes x hx) hballot hus (hstamp hp).2 hax).imp id (hstep.blocked inv)
      · push Not at hex
        exact Or.inr (hstep.blocked inv (inv.blocked_of_votes hA hvotes hus hex))
    · rw [lead_led_of_ne _ _ _ _ hst] at hl
      rw [lead_leaderLog_of_ne _ _ _ _ hst]
      exact (inv.complete hl hus (hstamp hp).2).imp id (hstep.blocked inv)

theorem Inv.propose (inv : Inv Q h) {e : ε} (hled : h.led t = some i) (he : stamp e = t) :
    Inv Q (h.propose t e) := by
  have hstep : Step Q i h (h.propose t e) := .propose t e hled he
  have ext := hstep.extends inv
  -- the only new stamped prefix is the whole extended log
  have hstamp : ∀ {s p}, Stamp (h.propose t e) s p →
      Stamp h s p ∨ (s = t ∧ p.length = (h.leaderLog t).length + 1) := by
    rintro s p ⟨hp, hne, hs⟩
    rcases eq_or_ne s t with rfl | hst
    · rw [propose_leaderLog_self, List.prefix_concat_iff] at hp
      rcases hp with rfl | hp
      · exact Or.inr ⟨rfl, by simp⟩
      · exact Or.inl ⟨hp, hne, hs⟩
    · rw [propose_leaderLog_of_ne _ _ _ hst] at hp
      exact Or.inl ⟨hp, hne, hs⟩
  refine { inv with
    led_ballot := fun {j s} hl => ?_
    unled := fun {s} hl => ?_
    traces_log := fun j => (inv.traces_log j).mono ext.leaderLog_le
    traces_ballot := fun hb => (inv.traces_ballot hb).mono ext.leaderLog_le
    traces_leader := fun s => ?_
    ack_len := fun j s => (inv.ack_len j s).trans (ext.leaderLog_le s).length_le
    carried := fun {j s p} hp ha => ?_
    voted := fun {j s d l u p} hv hb hts hp ha => ?_
    complete := fun {s u p} hl hus hp => ?_ }
  · rcases eq_or_ne s t with rfl | hst
    · obtain ⟨l, r, hb, hlog, hr⟩ := inv.led_ballot hl
      refine ⟨l, r ++ [e], hb, by simp [hlog], fun e' he' => ?_⟩
      rcases List.mem_append.mp he' with he' | he'
      · exact hr e' he'
      · rwa [List.mem_singleton.mp he']
    · rw [propose_leaderLog_of_ne _ _ _ hst]
      exact inv.led_ballot hl
  · have hst : s ≠ t := by
      rintro rfl
      exact absurd (hled.symm.trans hl) (by simp)
    rw [propose_leaderLog_of_ne _ _ _ hst]
    exact inv.unled hl
  · rcases eq_or_ne s t with rfl | hst
    · rw [propose_leaderLog_self]
      intro p hp hne
      rcases List.prefix_concat_iff.mp hp with rfl | hp
      · rw [lastStamp_concat, he, propose_leaderLog_self]
      · exact (inv.traces_leader s).mono ext.leaderLog_le p hp hne
    · rw [propose_leaderLog_of_ne _ _ _ hst]
      exact (inv.traces_leader s).mono ext.leaderLog_le
  · rcases hstamp hp with hp | ⟨rfl, hlen⟩
    · exact (inv.carried hp ha).imp id (hstep.blocked inv)
    · exact absurd (ha.trans (inv.ack_len j s)) (by omega)
  · rcases hstamp hp with hp | ⟨rfl, hlen⟩
    · exact (inv.voted hv hb hts hp ha).imp id (hstep.blocked inv)
    · exact absurd (ha.trans (inv.ack_len j u)) (by omega)
  · rcases hstamp hp with hp | ⟨rfl, hlen⟩
    · exact (inv.complete hl hus hp).imp (fun hpre => hpre.trans (ext.leaderLog_le s))
        (hstep.blocked inv)
    · -- the later leader's voters have left the term, and the entry is new
      obtain ⟨j, hj⟩ := Option.ne_none_iff_exists'.mp hl
      obtain ⟨A, hA, hvotes⟩ := inv.led_quorum hj
      refine Or.inr (hstep.blocked inv (inv.blocked_of_votes hA hvotes hus fun x _ => ?_))
      have := inv.ack_len x u
      omega

theorem Inv.accept (inv : Inv Q h) {t k : ℕ} (hled : h.led t ≠ none) (ht : h.term i ≤ t)
    (hk : k ≤ (h.leaderLog t).length) : Inv Q (h.accept i t k) := by
  have hstep : Step Q i h (h.accept i t k) := .accept t k hled ht hk
  have ext := hstep.extends inv
  have hterm : (h.accept i t k).term i = t := by simp [History.accept]
  have htake : (h.leaderLog t).take k <+: h.leaderLog t := List.take_prefix k _
  refine { inv with
    vote_le := fun hv => (inv.vote_le hv).trans (ext.term_le _)
    log_le := fun {j} e he => ?_
    traces_log := fun j => ?_
    ack_term := fun {j s} ha => ?_
    ack_len := fun j s => ?_
    carried := fun {j s p} hp ha => ?_
    voted := fun {j s d l u p} hv hb hts hp ha => ?_
    complete := fun hl hts hp => (inv.complete hl hts hp).imp id (hstep.blocked inv) }
  · rcases eq_or_ne j i with rfl | hj
    · rw [hterm]
      rw [accept_log_self] at he
      rcases splice_cases (h.leaderLog t) k (h.log j) with hs | ⟨-, hs⟩
      · rw [hs] at he
        exact (inv.log_le e he).trans ht
      · rw [hs] at he
        exact inv.leader_le e (htake.mem he)
    · rw [accept_log_of_ne _ _ _ _ hj] at he
      exact (inv.log_le e he).trans (ext.term_le j)
  · rcases eq_or_ne j i with rfl | hj
    · rw [accept_log_self]
      rcases splice_cases (h.leaderLog t) k (h.log j) with hs | ⟨-, hs⟩
      · rw [hs]
        exact inv.traces_log j
      · rw [hs]
        exact (inv.traces_leader t).of_isPrefix htake
    · rw [accept_log_of_ne _ _ _ _ hj]
      exact inv.traces_log j
  · by_cases hjs : j = i ∧ s = t
    · rw [hjs.1, hjs.2, hterm]
    · rw [accept_ack_of_ne _ _ _ _ (by tauto)] at ha
      exact (inv.ack_term ha).trans (ext.term_le j)
  · by_cases hjs : j = i ∧ s = t
    · rw [hjs.1, hjs.2, accept_ack_self]
      exact max_le (inv.ack_len i t) hk
    · rw [accept_ack_of_ne _ _ _ _ (by tauto)]
      exact inv.ack_len j s
  · rcases eq_or_ne j i with rfl | hj
    · rw [accept_log_self]
      have hpre : p <+: h.leaderLog s := hp.1
      by_cases hnew : s = t ∧ p.length ≤ k
      · -- acknowledged by this very step
        obtain ⟨rfl, hlen⟩ := hnew
        refine Or.inl (List.IsPrefix.trans ?_ take_prefix_splice)
        exact List.prefix_of_prefix_length_le hpre htake (by simp; omega)
      · have hold : p.length ≤ h.ack j s := by
          by_cases hst : s = t
          · subst hst
            rw [accept_ack_self] at ha
            omega
          · rwa [accept_ack_of_ne _ _ _ _ (Or.inr hst)] at ha
        rcases inv.carried hp hold with hlog | hblock
        · rcases eq_or_ne s t with rfl | hst
          · exact Or.inl (prefix_splice hlog hpre)
          · have hpos : 0 < h.ack j s := (List.length_pos_of_ne_nil hp.2.1).trans_le hold
            have hlt : s < t := lt_of_le_of_ne ((inv.ack_term hpos).trans ht) hst
            exact (inv.complete hled hlt hp).imp (prefix_splice hlog) (hstep.blocked inv)
        · exact Or.inr (hstep.blocked inv hblock)
    · rw [accept_ack_of_ne _ _ _ _ (Or.inl hj)] at ha
      rw [accept_log_of_ne _ _ _ _ hj]
      exact (inv.carried hp ha).imp id (hstep.blocked inv)
  · have hold : p.length ≤ h.ack j u := by
      by_cases hju : j = i ∧ u = t
      · obtain ⟨rfl, rfl⟩ := hju
        have := inv.vote_le hv
        omega
      · rwa [accept_ack_of_ne _ _ _ _ (by tauto)] at ha
    exact (inv.voted hv hb hts hp hold).imp id (hstep.blocked inv)

/-- **The invariant is preserved by every step.** -/
theorem Step.inv (inv : Inv Q h) (hstep : Step Q i h h') : Inv Q h' := by
  cases hstep with
  | observe t ht => exact inv.observe ht
  | campaign t ht => exact inv.campaign ht
  | grant t c l ht hvote hballot hup => exact inv.grant ht hvote hballot hup
  | lead t l A hA hvotes hballot hled => exact inv.lead hA hvotes hballot hled
  | propose t e hled he => exact inv.propose hled he
  | accept t k hled ht hk => exact inv.accept hled ht hk

end Steps

/-! ### Runs -/

section Runs

variable [DecidableEq ι] {h' : History ι ε}

/-- **A run of node `i`**: any number of its steps. -/
abbrev Steps (Q : QuorumSystem ι) (i : ι) : History ι ε → History ι ε → Prop :=
  Relation.ReflTransGen (Step Q i)

theorem Steps.inv {i : ι} (inv : Inv Q h) (hrun : Steps Q i h h') : Inv Q h' := by
  induction hrun with
  | refl => exact inv
  | tail _ hstep ih => exact hstep.inv ih

theorem Steps.extends {i : ι} (inv : Inv Q h) (hrun : Steps Q i h h') : Extends i h h' := by
  induction hrun with
  | refl => exact Extends.refl i h
  | tail hrun hstep ih => exact ih.trans (hstep.extends (Steps.inv inv hrun))

end Runs

/-! ### What is recorded stays recorded -/

section Mono

variable {h' : History ι ε} {i : ι}

theorem Grows.stamp (ext : Grows h h') (hp : Stamp h t p) :
    Stamp h' t p := ⟨hp.1.trans (ext.leaderLog_le t), hp.2⟩

theorem Grows.chosen (ext : Grows h h') (hp : Chosen Q h t p) :
    Chosen Q h' t p := by
  obtain ⟨hs, A, hA, hack⟩ := hp
  exact ⟨ext.stamp hs, A, hA, fun x hx => (hack x hx).trans (ext.ack_le x t)⟩

theorem Grows.settled (ext : Grows h h') (hp : Settled Q h p) :
    Settled Q h' p := by
  rcases hp with rfl | ⟨t, q, hq, hpq⟩
  · exact Or.inl rfl
  · exact Or.inr ⟨t, q, ext.chosen hq, hpq⟩

theorem Grows.settledBy (ext : Grows h h') (hp : SettledBy Q h t p) :
    SettledBy Q h' t p :=
  hp.imp_right fun ⟨s, q, hs, hq, hpq⟩ => ⟨s, q, hs, ext.chosen hq, hpq⟩

theorem Grows.traces (ext : Grows h h') {l : List ε} (hl : Traces h l) : Traces h' l :=
  hl.mono ext.leaderLog_le

end Mono

/-! ### The safety properties -/

/-- **Leader completeness**: the leader log of a later term extends a chosen
prefix. -/
theorem Chosen.prefix_leaderLog (inv : Inv Q h) (hp : Chosen Q h t p) (hs : h.led s ≠ none)
    (hts : t < s) : p <+: h.leaderLog s := by
  rcases inv.complete hs hts hp.1 with hpre | hblock
  · exact hpre
  · exact absurd hblock hp.not_blocked

/-- The leader log of a term holds everything that is settled by it. -/
theorem SettledBy.prefix_leaderLog (inv : Inv Q h) (hp : SettledBy Q h t p) (ht : h.led t ≠ none) :
    p <+: h.leaderLog t := by
  rcases hp with rfl | ⟨s, q, hs, hq, hpq⟩
  · exact List.nil_prefix
  · rcases hs.lt_or_eq with hlt | rfl
    · exact hpq.trans (hq.prefix_leaderLog inv ht hlt)
    · exact hpq.trans hq.1.1

/-- **A leader of a later term held the prefix from its election on**, at times when the
prefix was not yet chosen too. -/
theorem Chosen.prefix_of_led {h₀ : History ι ε} (inv₀ : Inv Q h₀) (inv : Inv Q h) (hg : Grows h₀ h)
    {i : ι} (hp : Chosen Q h t p) (hl : h₀.led s = some i) (hts : t < s) :
    p <+: h₀.leaderLog s := by
  obtain ⟨l, r, hb, heq, -⟩ := inv₀.led_ballot hl
  have hl' := hg.led_keep hl
  have hpre : p <+: h.leaderLog s := hp.prefix_leaderLog inv (by simp [hl']) hts
  rw [heq]
  exact (inv.prefix_ballot hl' (hg.ballot_keep hb) hts hp.1 hpre).trans (List.prefix_append _ _)


/-- **A chosen prefix is kept by the nodes that acknowledged it**, whatever
happened to them since. -/
theorem Chosen.prefix_log (inv : Inv Q h) {i : ι} (hp : Chosen Q h t p)
    (hack : p.length ≤ h.ack i t) : p <+: h.log i := by
  rcases inv.carried hp.1 hack with hpre | hblock
  · exact hpre
  · exact absurd hblock hp.not_blocked

/-- A term with a stamped prefix has a leader. -/
theorem Stamp.led (inv : Inv Q h) (hp : Stamp h t p) : h.led t ≠ none := by
  intro hl
  have hpre := hp.1
  rw [inv.unled hl] at hpre
  exact hp.2.1 (List.eq_nil_of_prefix_nil hpre)

theorem Chosen.comparable (inv : Inv Q h) {p q : List ε} (hp : Chosen Q h t p)
    (hq : Chosen Q h s q) : p <+: q ∨ q <+: p := by
  rcases Nat.lt_trichotomy t s with hlt | rfl | hlt
  · exact List.prefix_or_prefix_of_prefix (hp.prefix_leaderLog inv (hq.1.led inv) hlt) hq.1.1
  · exact List.prefix_or_prefix_of_prefix hp.1.1 hq.1.1
  · exact List.prefix_or_prefix_of_prefix hp.1.1 (hq.prefix_leaderLog inv (hp.1.led inv) hlt)

/-- **State-machine safety**: any two settled prefixes agree, in that one extends
the other. -/
theorem Settled.comparable (inv : Inv Q h) {p q : List ε} (hp : Settled Q h p)
    (hq : Settled Q h q) : p <+: q ∨ q <+: p := by
  rcases hp with rfl | ⟨t, p', hp', hpp'⟩
  · exact Or.inl List.nil_prefix
  rcases hq with rfl | ⟨s, q', hq', hqq'⟩
  · exact Or.inr List.nil_prefix
  rcases hp'.comparable inv hq' with hle | hle
  · exact List.prefix_or_prefix_of_prefix (hpp'.trans hle) hqq'
  · exact List.prefix_or_prefix_of_prefix hpp' (hqq'.trans hle)

/-! ### What a node holds in its own term -/

section Holding

variable {h' : History ι ε} {i : ι}

omit [Stamped ε] in
/-- **A node holds what it has acknowledged in its own term**, entries of earlier terms
included. In a later term it may lose the part that was not chosen. -/
def Holding (h : History ι ε) : Prop :=
  ∀ i, (h.leaderLog (h.term i)).take (h.ack i (h.term i)) <+: h.log i

omit [Stamped ε] in
theorem holding_initial : Holding (initial : History ι ε) := fun _ => List.prefix_rfl

/-- In the term it reaches, a node holds what it has acknowledged there: nothing, if the
term is new to it. -/
theorem Holding.reached (hh : Holding h) (inv : Inv Q h) (ht : h.term i ≤ t) :
    (h.leaderLog t).take (h.ack i t) <+: h.log i := by
  rcases ht.eq_or_lt with rfl | hlt
  · exact hh i
  · have hack : h.ack i t = 0 := by
      by_contra hne
      exact absurd (inv.ack_term (Nat.pos_of_ne_zero hne)) (not_le.mpr hlt)
    rw [hack, List.take_zero]
    exact List.nil_prefix

variable [DecidableEq ι]

theorem Holding.observe (hh : Holding h) (inv : Inv Q h) (ht : h.term i ≤ t) :
    Holding (h.observe i t) := by
  intro j
  rcases eq_or_ne j i with rfl | hj
  · rw [observe_term_self]
    exact hh.reached inv ht
  · rw [observe_term_of_ne _ _ _ hj]
    exact hh j

/-- **Every step keeps it.** -/
theorem Holding.step (hh : Holding h) (inv : Inv Q h) (hstep : Step Q i h h') : Holding h' := by
  cases hstep with
  | observe t ht => exact hh.observe inv ht
  | campaign t ht => exact hh.observe inv ht.le
  | grant t c l ht => exact hh.observe inv ht
  | lead t l A hA hvotes hballot hled =>
    intro j
    have hack := inv.ack_len j t
    rw [inv.unled hled, List.length_nil, Nat.le_zero] at hack
    show ((h.lead i t l).leaderLog (h.term j)).take (h.ack j (h.term j)) <+: h.log j
    rcases eq_or_ne (h.term j) t with heq | hne
    · rw [heq, hack, List.take_zero]
      exact List.nil_prefix
    · rw [lead_leaderLog_of_ne _ _ _ _ hne]
      exact hh j
  | propose t e hled he =>
    intro j
    show ((h.propose t e).leaderLog (h.term j)).take (h.ack j (h.term j)) <+: h.log j
    rcases eq_or_ne (h.term j) t with heq | hne
    · have hj := hh j
      rw [heq] at hj ⊢
      rwa [propose_leaderLog_self, List.take_append_of_le_length (inv.ack_len j t)]
    · rw [propose_leaderLog_of_ne _ _ _ hne]
      exact hh j
  | accept t k hled ht hk =>
    intro j
    rcases eq_or_ne j i with rfl | hj
    · have hterm : (h.accept j t k).term j = t := observe_term_self h j t
      rw [hterm, accept_log_self, accept_ack_self]
      show (h.leaderLog t).take (max (h.ack j t) k) <+: splice (h.leaderLog t) k (h.log j)
      rcases le_total (h.ack j t) k with hle | hle
      · rw [max_eq_right hle]
        exact take_prefix_splice
      · rw [max_eq_left hle]
        have hpre : (h.leaderLog t).take (h.ack j t) <+: h.leaderLog t := List.take_prefix _ _
        exact prefix_splice (hh.reached inv ht) hpre
    · have hterm : (h.accept i t k).term j = h.term j := observe_term_of_ne h i t hj
      rw [hterm, accept_log_of_ne _ _ _ _ hj, accept_ack_of_ne _ _ _ _ (Or.inl hj)]
      exact hh j

theorem Holding.steps (hh : Holding h) (inv : Inv Q h) (hrun : Steps Q i h h') : Holding h' := by
  induction hrun with
  | refl => exact hh
  | tail hrun hstep ih => exact ih.step (Steps.inv inv hrun) hstep

end Holding

end History

end Consensus
