import Mathlib.Algebra.Group.Nat.Defs
import Mathlib.Data.List.Basic

/-!
# Readers and writers of byte streams

A reader consumes the front of a list and may fail; a writer appends to a list within a limit
and may fail. What a format needs of them is that a reader gets back what a writer has put
there, whatever follows it, and accepts nothing else.

`DetLog.Wire.Parses r encode P` says that the reader `r` accepts exactly what `encode` makes of
the values with `P`, and `DetLog.Wire.Writes w limit P bs` that the writer `w` appends `bs`
exactly if `P` holds and there is room. Both come with one rule for each way to build a reader
or a writer, so that a format is verified by walking through its two halves side by side.
-/

namespace DetLog.Wire

/-! ### Little-endian numbers -/

/-- The low `width` bytes of a number, least significant first. -/
def leBytes : ℕ → ℕ → List (Fin 256)
  | 0, _ => []
  | width + 1, value => ⟨value % 256, Nat.mod_lt _ (by decide)⟩ :: leBytes width (value / 256)

/-- The number that a list of bytes denotes. -/
def leValue : List (Fin 256) → ℕ
  | [] => 0
  | b :: rest => b + 256 * leValue rest

@[simp] theorem length_leBytes (width value : ℕ) : (leBytes width value).length = width := by
  induction width generalizing value with
  | zero => rfl
  | succ width ih => simp [leBytes, ih]

/-- A number that fits its width is read back. -/
theorem leValue_leBytes {width value : ℕ} (h : value < 256 ^ width) :
    leValue (leBytes width value) = value := by
  induction width generalizing value with
  | zero =>
    rw [Nat.pow_zero, Nat.lt_one_iff] at h
    rw [h]
    rfl
  | succ width ih =>
    have hdiv : value / 256 < 256 ^ width := by
      rw [Nat.div_lt_iff_lt_mul (by decide), ← Nat.pow_succ]
      exact h
    simp only [leBytes, leValue, ih hdiv]
    exact Nat.mod_add_div value 256

theorem leValue_lt (bs : List (Fin 256)) : leValue bs < 256 ^ bs.length := by
  induction bs with
  | nil => exact Nat.one_pos
  | cons b bs ih =>
    rw [leValue, List.length_cons, Nat.pow_succ]
    omega

/-- Every list of bytes is the encoding of its value. -/
theorem leBytes_leValue (bs : List (Fin 256)) : leBytes bs.length (leValue bs) = bs := by
  induction bs with
  | nil => rfl
  | cons b bs ih =>
    have hmod : (b + 256 * leValue bs) % 256 = b := by omega
    have hdiv : (b + 256 * leValue bs) / 256 = leValue bs := by omega
    simp only [List.length_cons, leBytes, leValue, hmod, hdiv, ih]

/-- Numbers of a width are told apart by their bytes. -/
theorem leBytes_inj {width v w : ℕ} (hv : v < 256 ^ width) (hw : w < 256 ^ width) :
    leBytes width v = leBytes width w ↔ v = w := by
  refine ⟨fun h => ?_, congrArg _⟩
  rw [← leValue_leBytes hv, h, leValue_leBytes hw]

/-! ### Results -/

theorem ok_bind {ε α γ : Type} (a : α) (f : α → Except ε γ) : (Except.ok a >>= f) = f a := rfl

theorem bind_eq_ok {ε α γ : Type} {x : Except ε α} {f : α → Except ε γ} {c : γ} :
    (x >>= f) = .ok c ↔ ∃ a, x = .ok a ∧ f a = .ok c := by
  cases x with
  | error e => exact ⟨fun h => (nomatch h), fun ⟨_, h, _⟩ => (nomatch h)⟩
  | ok a => exact ⟨fun h => ⟨a, rfl, h⟩, fun ⟨b, h, h'⟩ => by rwa [Except.ok.inj h]⟩

theorem bind_eq_error {ε α γ : Type} {x : Except ε α} {f : α → Except ε γ} {e : ε} :
    (x >>= f) = .error e ↔ x = .error e ∨ ∃ a, x = .ok a ∧ f a = .error e := by
  cases x with
  | error e' =>
    change Except.error e' = Except.error e ↔ _
    simp
  | ok a =>
    change f a = Except.error e ↔ _
    simp

theorem map_eq_ok {ε α γ : Type} {x : Except ε α} {g : α → γ} {c : γ} :
    g <$> x = .ok c ↔ ∃ a, x = .ok a ∧ g a = c := by
  cases x with
  | error e => exact ⟨fun h => (nomatch h), fun ⟨_, h, _⟩ => (nomatch h)⟩
  | ok a => exact ⟨fun h => ⟨a, rfl, Except.ok.inj h⟩, fun ⟨b, h, h'⟩ => by
      rw [Except.ok.inj h, ← h']
      rfl⟩

/-! ### Readers -/

/-- A reader of a stream: a result and the rest of the input, or an error. -/
abbrev Reader (β ε : Type) := StateT (List β) (Except ε)

section Reader

variable {β ε α γ : Type}

namespace Reader

/-- The next `n` bytes, or the error `short`. -/
def take (short : ε) (n : ℕ) : Reader β ε (List β) := fun input =>
  if n ≤ input.length then .ok (input.take n, input.drop n) else .error short

/-- How much input is left. -/
def remaining : Reader β ε ℕ := fun input => .ok (input.length, input)

/-- Fail if a condition holds. -/
def failIf (bad : Bool) (e : ε) : Reader β ε Unit := if bad then throw e else pure ()

/-- A part that is present or not. -/
def optional (present : Bool) (r : Reader β ε α) : Reader β ε (Option α) :=
  if present then some <$> r else pure none

/-- The same part several times. -/
def many (r : Reader β ε α) : ℕ → Reader β ε (List α)
  | 0 => pure []
  | n + 1 => do
    let a ← r
    let as ← many r n
    pure (a :: as)

end Reader

/-! ### What an accepted input was

A run that has succeeded is taken apart at its end: each rule turns the success of a reader
into the success of its parts. -/

namespace Reader

variable {r : Reader β ε α} {f : α → Reader β ε γ} {input rest : List β} {a : α} {c : γ}

/-- A sequence of readers succeeds when each does on what the one before left. -/
theorem bind_ok : (r >>= f) input = .ok (c, rest) ↔
    ∃ a mid, r input = .ok (a, mid) ∧ f a mid = .ok (c, rest) := by
  change (r input >>= fun p => f p.1 p.2) = _ ↔ _
  rw [bind_eq_ok, Prod.exists]

theorem pure_ok {b : α} : (Pure.pure a : Reader β ε α) input = .ok (b, rest) ↔
    a = b ∧ input = rest := by
  change Except.ok (a, input) = _ ↔ _
  rw [Except.ok.injEq, Prod.mk.injEq]

theorem map_ok {g : α → γ} : (g <$> r) input = .ok (c, rest) ↔
    ∃ a, r input = .ok (a, rest) ∧ g a = c := by
  change (r input >>= fun p => Pure.pure (g p.1, p.2)) = _ ↔ _
  rw [bind_eq_ok, Prod.exists]
  constructor
  · rintro ⟨a, mid, hr, h⟩
    obtain ⟨rfl, rfl⟩ := Prod.mk.inj (Except.ok.inj h)
    exact ⟨a, hr, rfl⟩
  · rintro ⟨a, hr, rfl⟩
    exact ⟨a, rest, hr, rfl⟩

theorem failIf_ok {bad : Bool} {e : ε} {u : Unit} :
    (failIf bad e : Reader β ε Unit) input = .ok (u, rest) ↔ bad = false ∧ input = rest := by
  cases bad with
  | true => exact ⟨fun h => (nomatch h), fun h => (nomatch h.1)⟩
  | false => exact pure_ok.trans (and_congr_left' (iff_of_true rfl rfl))

theorem remaining_ok {n : ℕ} : (remaining : Reader β ε ℕ) input = .ok (n, rest) ↔
    input.length = n ∧ input = rest := by
  unfold remaining
  rw [Except.ok.injEq, Prod.mk.injEq]

/-- The bytes that were asked for, when there are as many. -/
theorem take_ok {short : ε} {n : ℕ} {bs : List β} : take short n input = .ok (bs, rest) ↔
    bs.length = n ∧ input = bs ++ rest := by
  unfold take
  split_ifs with h
  · rw [Except.ok.injEq, Prod.mk.injEq]
    constructor
    · rintro ⟨rfl, rfl⟩
      exact ⟨List.length_take_of_le h, (List.take_append_drop n input).symm⟩
    · rintro ⟨rfl, rfl⟩
      exact ⟨List.take_left, List.drop_left⟩
  · refine iff_of_false (fun h => (nomatch h)) ?_
    rintro ⟨rfl, rfl⟩
    exact h (List.length_append ▸ Nat.le_add_right _ _)

theorem optional_ok {present : Bool} {o : Option α} :
    optional present r input = .ok (o, rest) ↔
      present = false ∧ o = none ∧ input = rest ∨
        present = true ∧ ∃ a, o = some a ∧ r input = .ok (a, rest) := by
  cases present with
  | false =>
    rw [optional, if_neg Bool.false_ne_true, pure_ok]
    simp [eq_comm]
  | true =>
    simp only [optional, if_pos, map_ok, Bool.true_eq_false, false_and, true_and, false_or]
    exact exists_congr fun a => and_comm.trans (and_congr_left' eq_comm)

end Reader

/-- **The reader accepts exactly what `encode` makes**, of the values that satisfy `P`. -/
def Parses (r : Reader β ε α) (encode : α → List β) (P : α → Prop) : Prop :=
  ∀ input a rest, r input = .ok (a, rest) ↔ P a ∧ input = encode a ++ rest

namespace Parses

variable {r : Reader β ε α} {encode : α → List β} {P : α → Prop} {input rest : List β}

theorem optional (h : Parses r encode P) {present : Bool} {o : Option α} :
    Reader.optional present r input = .ok (o, rest) ↔
      present = o.isSome ∧ (∀ a, o = some a → P a) ∧ input = o.elim [] encode ++ rest := by
  rw [Reader.optional_ok]
  constructor
  · rintro (⟨rfl, rfl, rfl⟩ | ⟨rfl, a, rfl, hr⟩)
    · simp
    · obtain ⟨hP, rfl⟩ := (h _ _ _).mp hr
      simpa using hP
  · rintro ⟨rfl, hP, rfl⟩
    cases o with
    | none => simp
    | some a => exact Or.inr ⟨rfl, a, rfl, (h _ _ _).mpr ⟨hP a rfl, rfl⟩⟩

/-- A counted list is read back. -/
theorem many (h : Parses r encode P) {n : ℕ} {as : List α} :
    Reader.many r n input = .ok (as, rest) ↔
      as.length = n ∧ (∀ a ∈ as, P a) ∧ input = as.flatMap encode ++ rest := by
  induction n generalizing input as rest with
  | zero =>
    rw [Reader.many, Reader.pure_ok, List.length_eq_zero_iff]
    constructor
    · rintro ⟨rfl, rfl⟩
      simp
    · rintro ⟨rfl, -, rfl⟩
      exact ⟨rfl, rfl⟩
  | succ n ih =>
    rw [Reader.many, Reader.bind_ok]
    simp only [Reader.bind_ok, Reader.pure_ok, h _ _ _, ih]
    constructor
    · rintro ⟨a, mid, ⟨hP, rfl⟩, as, mid', ⟨rfl, hPs, rfl⟩, rfl, rfl⟩
      exact ⟨rfl, List.forall_mem_cons.mpr ⟨hP, hPs⟩, by simp⟩
    · rintro ⟨hlen, hPs, rfl⟩
      obtain ⟨a, as, rfl⟩ := List.exists_cons_of_length_eq_add_one hlen
      obtain ⟨hP, hPs⟩ := List.forall_mem_cons.mp hPs
      exact ⟨a, _, ⟨hP, by rw [List.flatMap_cons, List.append_assoc]⟩, as, rest,
        ⟨Nat.succ.inj hlen, hPs, rfl⟩, rfl, rfl⟩

end Parses

end Reader

/-! ### Writers -/

/-- A writer of a stream: what is written so far, or an error. -/
abbrev Writer (β ε : Type) := StateT (List β) (Except ε)

section Writer

variable {β ε α γ : Type}

/-- Append some bytes within a limit, or the error `full`. -/
def Writer.put (limit : ℕ) (full : ε) (bs : List β) : Writer β ε Unit := fun written =>
  if limit - min limit written.length < bs.length then .error full else .ok ((), written ++ bs)

theorem Writer.put_eq {limit : ℕ} {full : ε} {bs old : List β}
    (h : old.length + bs.length ≤ limit) :
    Writer.put limit full bs old = .ok ((), old ++ bs) := by
  unfold Writer.put
  rw [if_neg]
  omega

/-- A part that fits, of a longer output. -/
theorem Writer.put_bind {limit : ℕ} {full : ε} {bs old : List β} (f : Unit → Writer β ε γ)
    (h : old.length + bs.length ≤ limit) :
    (Writer.put limit full bs >>= f) old = f () (old ++ bs) := by
  show (Writer.put limit full bs old >>= fun p => f p.1 p.2) = _
  rw [Writer.put_eq h]
  rfl

theorem Writer.get_bind (f : List β → Writer β ε γ) (old : List β) :
    (MonadState.get >>= f) old = f old old := rfl

/-- **The writer appends `bs`**, and it succeeds exactly if `P` holds and there is room. -/
def Writes (w : Writer β ε Unit) (limit : ℕ) (P : Prop) (bs : List β) : Prop :=
  ∀ old : List β, old.length ≤ limit → ∀ r, w old = .ok r ↔
    P ∧ old.length + bs.length ≤ limit ∧ r = ((), old ++ bs)

namespace Writes

variable {w w' : Writer β ε Unit} {limit : ℕ} {P Q : Prop} {bs cs : List β}

theorem congr (h : Writes w limit P bs) (hP : P ↔ Q) : Writes w limit Q bs := by
  rwa [← propext hP]

theorem pure (limit : ℕ) : Writes (Pure.pure () : Writer β ε Unit) limit True [] := by
  intro old hold r
  change Except.ok ((), old) = _ ↔ _
  simp [hold, eq_comm]

/-- A writer that appends exactly while there is room. -/
theorem of_room
    (hroom : ∀ old : List β, old.length + bs.length ≤ limit → w old = .ok ((), old ++ bs))
    (hfull : ∀ (old : List β) r, old.length ≤ limit → limit < old.length + bs.length →
      w old ≠ .ok r) : Writes w limit True bs := by
  intro old hold r
  rcases Nat.lt_or_ge limit (old.length + bs.length) with h | h
  · exact iff_of_false (hfull old r hold h) fun hr => Nat.not_lt.mpr hr.2.1 h
  · rw [hroom old h, Except.ok.injEq, eq_comm]
    exact ⟨fun hr => ⟨trivial, h, hr⟩, fun hr => hr.2.2⟩

theorem put (limit : ℕ) (full : ε) (bs : List β) :
    Writes (Writer.put limit full bs) limit True bs :=
  of_room (fun _ => Writer.put_eq) fun old r hold h => by
    rw [Writer.put, if_pos (by omega)]
    simp

/-- Two writers in sequence write one text after the other. -/
theorem bind (h : Writes w limit P bs) (h' : Writes w' limit Q cs) :
    Writes (w >>= fun _ => w') limit (P ∧ Q) (bs ++ cs) := by
  intro old hold r
  change (w old >>= fun p => w' p.2) = _ ↔ _
  rw [bind_eq_ok, List.length_append]
  constructor
  · rintro ⟨p, hw, hw'⟩
    obtain ⟨hP, hbs, rfl⟩ := (h old hold p).mp hw
    rw [← List.length_append] at hbs
    obtain ⟨hQ, hcs, rfl⟩ := (h' _ hbs r).mp hw'
    rw [List.length_append, Nat.add_assoc] at hcs
    exact ⟨⟨hP, hQ⟩, hcs, by rw [List.append_assoc]⟩
  · rintro ⟨⟨hP, hQ⟩, hroom, rfl⟩
    have hbs : old.length + bs.length ≤ limit := by omega
    refine ⟨((), old ++ bs), (h old hold _).mpr ⟨hP, hbs, rfl⟩, ?_⟩
    refine (h' _ (by rwa [List.length_append]) _).mpr ⟨hQ, ?_, by rw [List.append_assoc]⟩
    rwa [List.length_append, Nat.add_assoc]

theorem optional {o : Option α} {f : α → Writer β ε Unit} {encode : α → List β} {R : α → Prop}
    (h : ∀ a, Writes (f a) limit (R a) (encode a)) :
    Writes (o.elim (Pure.pure ()) f) limit (∀ a, o = some a → R a) (o.elim [] encode) := by
  cases o with
  | none => exact (pure limit).congr (by simp)
  | some a => exact (h a).congr (by simp)

/-- A loop of writers writes the elements in order. -/
theorem forM {f : α → Writer β ε Unit} {encode : α → List β} {R : α → Prop}
    (h : ∀ a, Writes (f a) limit (R a) (encode a)) (as : List α) :
    Writes (as.forM f) limit (∀ a ∈ as, R a) (as.flatMap encode) := by
  induction as with
  | nil => exact (pure limit).congr (by simp)
  | cons a as ih =>
    rw [List.flatMap_cons]
    exact ((h a).bind ih).congr List.forall_mem_cons.symm

/-- A writer that starts on an empty stream. -/
theorem run (h : Writes w limit P bs) {written : List β} :
    Prod.snd <$> w.run [] = .ok written ↔ P ∧ bs.length ≤ limit ∧ written = bs := by
  rw [map_eq_ok]
  constructor
  · rintro ⟨r, hr, rfl⟩
    obtain ⟨hP, hroom, rfl⟩ := (h [] (Nat.zero_le _) r).mp hr
    exact ⟨hP, by simpa using hroom, rfl⟩
  · rintro ⟨hP, hroom, rfl⟩
    exact ⟨((), written), (h [] (Nat.zero_le _) _).mpr ⟨hP, by simpa using hroom, rfl⟩, rfl⟩

end Writes

end Writer

/-! ### Damage to one place -/

section Damage

variable {β σ : Type}

/-- **Two lists that differ in exactly one place.** -/
inductive OneOff : List β → List β → Prop
  | head {x y : β} {l : List β} (ne : x ≠ y) : OneOff (x :: l) (y :: l)
  | tail {x : β} {l l' : List β} (h : OneOff l l') : OneOff (x :: l) (x :: l')

namespace OneOff

variable {l l' : List β}

theorem set {i : ℕ} {y : β} (hi : i < l.length) (hy : l[i]? ≠ some y) :
    OneOff l (l.set i y) := by
  induction l generalizing i with
  | nil => exact absurd hi (Nat.not_lt_zero i)
  | cons x l ih =>
    cases i with
    | zero =>
      refine head ?_
      rintro rfl
      exact hy rfl
    | succ i => exact tail (ih (Nat.lt_of_succ_lt_succ hi) hy)

/-- Damage keeps the length. -/
theorem length_eq (h : OneOff l l') : l'.length = l.length := by
  induction h with
  | head => rfl
  | tail _ ih => exact congrArg (· + 1) ih

theorem ne (h : OneOff l l') : l ≠ l' := by
  induction h with
  | head ne => exact fun heq => ne (List.cons.inj heq).1
  | tail _ ih => exact fun heq => ih (List.cons.inj heq).2

theorem ne_nil (h : OneOff l l') : l' ≠ [] := by
  cases h <;> exact List.cons_ne_nil _ _

/-- Damage to two parts is damage to one of them. -/
theorem append_cases {a b c : List β} (h : OneOff (a ++ b) c) :
    (∃ a', OneOff a a' ∧ c = a' ++ b) ∨ ∃ b', OneOff b b' ∧ c = a ++ b' := by
  induction a generalizing c with
  | nil => exact Or.inr ⟨c, h, rfl⟩
  | cons x a ih =>
    cases h with
    | head ne => exact Or.inl ⟨_, head ne, rfl⟩
    | tail h =>
      rcases ih h with ⟨a', ha, rfl⟩ | ⟨b', hb, rfl⟩
      · exact Or.inl ⟨_, tail ha, rfl⟩
      · exact Or.inr ⟨b', hb, rfl⟩

theorem append_left {b b' : List β} (h : OneOff b b') (a : List β) :
    OneOff (a ++ b) (a ++ b') := by
  induction a with
  | nil => exact h
  | cons x a ih => exact tail ih

/-- **A checksum that loses nothing in a step notices the damage**: after the damaged place
the registers differ, and no later step makes them agree again. -/
theorem foldl_ne {step : σ → β → σ} (hstate : ∀ b, Function.Injective fun s => step s b)
    (hbyte : ∀ s, Function.Injective (step s)) (h : OneOff l l') (s : σ) :
    l.foldl step s ≠ l'.foldl step s := by
  have hlist : ∀ (l : List β) {s s' : σ}, s ≠ s' → l.foldl step s ≠ l.foldl step s' := by
    intro l
    induction l with
    | nil => exact fun hne => hne
    | cons b l ih => exact fun hne => ih ((hstate b).ne hne)
  induction h generalizing s with
  | head ne => exact hlist _ ((hbyte s).ne ne)
  | tail _ ih => exact ih _

end OneOff

end Damage

end DetLog.Wire
