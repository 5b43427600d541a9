import PeerCache.Decoder

/-!
# `PeerCache.Proofs.Decoder`: what a decoder returns and what it accepts

Four statements about a decoder, each with the rules that follow how decoders are
built.

* `Decoder.Yields` holds for all bytes, those of an attacker included: a value that
  is returned has a property, and a failure has one of the given reasons.
* `Decoder.Reads` is about the bytes of a value: the decoder takes them off the
  front, whatever follows, and returns the value.
* `Decoder.Takes` goes back from a value that was returned to the bytes that were
  taken for it.
* `Decoder.Stable` compares bytes with the same bytes and more: what the decoder has
  decided on the first it decides on both. So bytes that are read to the end cannot be
  cut short unnoticed (`Decoder.Stable.truncated_of_part`).

A layout that is read back is `Decoder.PrefixFree`. Each statement has a rule for
`Decoder.fold`. The invariant there may depend on how many values
have been read, or on the values themselves.
-/

set_option autoImplicit false

namespace PeerCache

namespace Decoder

variable {α β : Type}

/-! ### All bytes -/

section Yields

variable {E : StorageError → Prop} {Q : α → Prop} {R : β → Prop}

/-- A result that is a value with the property, or a failure for a given reason. -/
def Outcome {α : Type} (E : StorageError → Prop) (Q : α → Prop) : Except StorageError α → Prop
  | .ok a => Q a
  | .error e => E e

/-- On all bytes, the decoder returns a value with the property or fails for a given
reason. -/
def Yields (d : Decoder α) (E : StorageError → Prop) (Q : α → Prop) : Prop :=
  ∀ bytes : Bytes, Outcome E (fun x => Q x.1) (d bytes)

theorem Yields.pure {a : α} (ha : Q a) : (Pure.pure a : Decoder α).Yields E Q := fun _ => ha

/-- A refusal ends the decoder, whatever was to come. -/
theorem Yields.throw_bind {e : StorageError} {f : α → Decoder β} (he : E e) :
    ((throw e : Decoder α) >>= f).Yields E R := fun _ => he

theorem Yields.bind {d : Decoder α} {f : α → Decoder β} (hd : d.Yields E Q)
    (hf : ∀ a, Q a → (f a).Yields E R) : (d >>= f).Yields E R := by
  intro bytes
  have houtcome := hd bytes
  show Outcome E (fun x => R x.1) (d bytes >>= fun x => f x.1 x.2)
  cases hrun : d bytes with
  | error e =>
      rw [hrun] at houtcome
      exact houtcome
  | ok x =>
      rw [hrun] at houtcome
      exact hf x.1 houtcome x.2

theorem Yields.ofExcept {result : Except StorageError α} (h : Outcome E Q result) :
    (ofExcept result).Yields E Q := by
  intro bytes
  cases result with
  | error e => exact h
  | ok a => exact h

/-- As many bytes come as were asked for, unless the bytes run out. -/
theorem yields_take (n : Nat) (htruncated : E .truncated) :
    (take n).Yields E fun bytes => bytes.length = n := by
  intro bytes
  unfold take
  cases hsplit : split? n bytes with
  | none => exact htruncated
  | some x => exact (eq_append_of_split? hsplit).2

theorem yields_little (n : Nat) (htruncated : E .truncated) : (little n).Yields E fun _ => True :=
  (yields_take n htruncated).bind fun _ _ => .pure trivial

/-- An invariant that each value carries on holds after all of them. -/
theorem Yields.fold {item : Decoder α} {step : β → α → Except StorageError β}
    {I : Nat → β → Prop} (hitem : item.Yields E Q)
    (hstep : ∀ k acc a, I k acc → Q a → Outcome E (I (k + 1)) (step acc a)) (n k : Nat) {acc : β}
    (hacc : I k acc) : (fold item step n acc).Yields E (I (k + n)) := by
  -- The counter of the invariant goes up by one for each value read.
  induction n generalizing k acc with
  | zero => exact .pure hacc
  | succ n ih =>
      refine .bind hitem fun a ha => ?_
      refine .bind (.ofExcept (hstep k acc a hacc ha)) fun acc' hacc' => ?_
      rw [← Nat.succ_add_eq_add_succ]
      exact ih (k + 1) hacc'

/-- An invariant that holds at every value of a list holds at the end. -/
theorem Yields.foldlM {ι : Type} {l : List ι} {step : β → ι → Decoder β}
    (hstep : ∀ acc i, R acc → (step acc i).Yields E R) {acc : β} (hacc : R acc) :
    (l.foldlM step acc).Yields E R := by
  induction l generalizing acc with
  | nil => exact .pure hacc
  | cons i l ih =>
      rw [List.foldlM_cons]
      exact .bind (hstep acc i hacc) fun acc' hacc' => ih hacc'

end Yields

/-! ### The bytes of a value -/

/-- The decoder takes the bytes off the front, whatever follows, and returns the
value. -/
def Reads (d : Decoder α) (bytes : Bytes) (a : α) : Prop :=
  ∀ rest : Bytes, d (bytes ++ rest) = .ok (a, rest)

theorem Reads.pure (a : α) : (Pure.pure a : Decoder α).Reads [] a := fun _ => rfl

theorem Reads.bind {d : Decoder α} {f : α → Decoder β} {bytes bytes' : Bytes} {a : α} {b : β}
    (hd : d.Reads bytes a) (hf : (f a).Reads bytes' b) : (d >>= f).Reads (bytes ++ bytes') b := by
  intro rest
  show (d (bytes ++ bytes' ++ rest) >>= fun x => f x.1 x.2) = _
  rw [List.append_assoc, hd]
  exact hf rest

theorem Reads.ofExcept {result : Except StorageError α} {a : α} (h : result = .ok a) :
    (ofExcept result).Reads [] a := by
  subst h
  exact fun _ => rfl

theorem reads_take {bytes : Bytes} {n : Nat} (hn : bytes.length = n) :
    (take n).Reads bytes bytes := by
  subst hn
  intro rest
  rw [take, split?_append]

/-- A number below the span of its width is read back from its bytes. -/
theorem reads_little {width n : Nat} (hn : n < Bytes.span width) :
    (little width).Reads (Bytes.little width n) n := by
  have hread := Reads.bind (f := fun bytes => pure (Bytes.ofLittle bytes))
    (reads_take (Bytes.length_little width n)) (Reads.pure (Bytes.ofLittle (Bytes.little width n)))
  rw [List.append_nil, Bytes.ofLittle_little, Nat.mod_eq_of_lt hn] at hread
  exact hread

/-- Values that are written one after the other are read one after the other, and
handed on in the same order. -/
theorem Reads.fold {item : Decoder α} {step : β → α → Except StorageError β} {toBytes : α → Bytes}
    {l : List α} (hitem : ∀ a ∈ l, item.Reads (toBytes a) a) {acc acc' : β}
    (hsteps : l.foldlM step acc = .ok acc') :
    (fold item step l.length acc).Reads (l.flatMap toBytes) acc' := by
  induction l generalizing acc with
  | nil =>
      cases hsteps
      exact .pure _
  | cons a l ih =>
      rw [List.foldlM_cons] at hsteps
      cases hstep : step acc a with
      | error e =>
          rw [hstep] at hsteps
          cases hsteps
      | ok m =>
          rw [hstep] at hsteps
          rw [List.flatMap_cons]
          refine .bind (hitem a List.mem_cons_self) ?_
          -- The step between two values takes no bytes.
          have hrest := ih (fun a ha => hitem a (List.mem_cons_of_mem _ ha)) hsteps
          exact (Reads.ofExcept hstep).bind hrest

/-- A list that is read part by part, along with an invariant on what is left of it. -/
theorem Reads.foldlM {ι : Type} {step : β → ι → Decoder β} {toBytes : ι → Bytes}
    {I : List ι → β → Prop} (hstep : ∀ i l acc, I (i :: l) acc →
      ∃ acc', (step acc i).Reads (toBytes i) acc' ∧ I l acc') {l : List ι} {acc : β}
    (hacc : I l acc) : ∃ acc', (l.foldlM step acc).Reads (l.flatMap toBytes) acc' ∧ I [] acc' := by
  induction l generalizing acc with
  | nil => exact ⟨acc, .pure acc, hacc⟩
  | cons i l ih =>
      obtain ⟨m, hread, hm⟩ := hstep i l acc hacc
      obtain ⟨acc', hrest, hacc'⟩ := ih hm
      refine ⟨acc', ?_, hacc'⟩
      rw [List.foldlM_cons, List.flatMap_cons]
      exact hread.bind hrest

/-! ### Layouts -/

/-- A layout under which no bytes start with two values: what follows a value cannot be
mistaken for a part of it. -/
def PrefixFree (toBytes : α → Bytes) (Q : α → Prop) : Prop :=
  ∀ (a b : α) (rest rest' : Bytes), Q a → Q b → toBytes a ++ rest = toBytes b ++ rest' →
    a = b ∧ rest = rest'

/-- A decoder that reads every value back leaves no choice. -/
theorem Reads.prefixFree {d : Decoder α} {toBytes : α → Bytes} {Q : α → Prop}
    (h : ∀ a, Q a → d.Reads (toBytes a) a) : PrefixFree toBytes Q := by
  intro a b rest rest' ha hb hbytes
  have hread := h a ha rest
  rw [hbytes, h b hb rest'] at hread
  cases hread
  exact ⟨rfl, rfl⟩

theorem prefixFree_little (width : Nat) : PrefixFree (Bytes.little width) (· < Bytes.span width) :=
  Reads.prefixFree fun _ hn => reads_little hn

/-- So many values that follow one another leave no choice either. -/
theorem PrefixFree.flatMap {toBytes : α → Bytes} {Q : α → Prop} (h : PrefixFree toBytes Q)
    (n : Nat) : PrefixFree (List.flatMap toBytes) fun l => l.length = n ∧ ∀ a ∈ l, Q a := by
  intro l l' rest rest' ⟨hl, hQ⟩ ⟨hl', hQ'⟩ hbytes
  subst hl
  induction l generalizing l' with
  | nil =>
      obtain rfl := List.length_eq_zero_iff.mp hl'
      exact ⟨rfl, hbytes⟩
  | cons a l ih =>
      cases l' with
      | nil => cases hl'
      | cons b l' =>
          rw [List.forall_mem_cons] at hQ hQ'
          rw [List.flatMap_cons, List.flatMap_cons, List.append_assoc, List.append_assoc] at hbytes
          obtain ⟨rfl, hrest⟩ := h a b _ _ hQ.1 hQ'.1 hbytes
          obtain ⟨rfl, hend⟩ := ih l' hQ.2 hQ'.2 hrest (Nat.succ.inj hl')
          exact ⟨rfl, hend⟩

/-! ### The bytes that were taken -/

section Takes

variable {P : Bytes → α → Prop} {R : Bytes → β → Prop}

/-- Whenever the decoder returns a value, the bytes that it took off the front for it
are related to the value. -/
def Takes (d : Decoder α) (P : Bytes → α → Prop) : Prop :=
  ∀ (bytes : Bytes) (a : α) (rest : Bytes), d bytes = .ok (a, rest) →
    ∃ taken : Bytes, bytes = taken ++ rest ∧ P taken a

theorem Takes.pure {a : α} (ha : P [] a) : (Pure.pure a : Decoder α).Takes P := by
  intro bytes b rest hrun
  cases hrun
  exact ⟨[], rfl, ha⟩

/-- A refusal returns nothing. -/
theorem Takes.throw_bind (e : StorageError) (f : α → Decoder β) :
    ((throw e : Decoder α) >>= f).Takes R := by
  intro bytes b rest hrun
  cases hrun

theorem Takes.bind {d : Decoder α} {f : α → Decoder β} (hd : d.Takes P)
    (hf : ∀ taken a, P taken a → (f a).Takes fun taken' b => R (taken ++ taken') b) :
    (d >>= f).Takes R := by
  intro bytes b rest hrun
  change (d bytes >>= fun x => f x.1 x.2) = _ at hrun
  cases hfirst : d bytes with
  | error e =>
      rw [hfirst] at hrun
      cases hrun
  | ok x =>
      rw [hfirst] at hrun
      obtain ⟨taken, hbytes, ha⟩ := hd bytes x.1 x.2 hfirst
      obtain ⟨taken', hrest, hb⟩ := hf taken x.1 ha x.2 b rest hrun
      refine ⟨taken ++ taken', ?_, hb⟩
      rw [hbytes, hrest, List.append_assoc]

theorem Takes.mono {Q : Bytes → α → Prop} {d : Decoder α} (hd : d.Takes P)
    (hPQ : ∀ taken a, P taken a → Q taken a) : d.Takes Q := by
  intro bytes a rest hrun
  obtain ⟨taken, hbytes, ha⟩ := hd bytes a rest hrun
  exact ⟨taken, hbytes, hPQ taken a ha⟩

theorem Takes.ofExcept {result : Except StorageError α} (h : ∀ a, result = .ok a → P [] a) :
    (ofExcept result).Takes P := by
  intro bytes a rest hrun
  cases result with
  | error e => cases hrun
  | ok b =>
      cases hrun
      exact ⟨[], rfl, h a rfl⟩

theorem takes_take (n : Nat) :
    (take n).Takes fun taken bytes => taken = bytes ∧ bytes.length = n := by
  intro bytes a rest hrun
  unfold take at hrun
  split at hrun
  · next hsplit =>
    cases hrun
    obtain ⟨hbytes, hlength⟩ := eq_append_of_split? hsplit
    exact ⟨a, hbytes, rfl, hlength⟩
  · cases hrun

theorem takes_little (n : Nat) :
    (little n).Takes fun taken v => taken = Bytes.little n v ∧ v < Bytes.span n := by
  refine .bind (takes_take n) fun taken bytes hbytes => .pure ?_
  obtain ⟨rfl, rfl⟩ := hbytes
  rw [List.append_nil, Bytes.little_ofLittle]
  exact ⟨rfl, Bytes.ofLittle_lt taken⟩

/-- The bytes of several values follow one another. An invariant on the values read so
far is carried on by each of them. -/
theorem Takes.fold {item : Decoder α} {step : β → α → Except StorageError β}
    {toBytes : α → Bytes} {Q : α → Prop} {I : List α → β → Prop}
    (hitem : item.Takes fun taken a => taken = toBytes a ∧ Q a)
    (hstep : ∀ l acc a acc', I l acc → Q a → step acc a = .ok acc' → I (l ++ [a]) acc')
    (n : Nat) {acc : β} (hacc : I [] acc) :
    (fold item step n acc).Takes fun taken acc' => ∃ l : List α,
      l.length = n ∧ taken = l.flatMap toBytes ∧ (∀ a ∈ l, Q a) ∧ I l acc' := by
  -- After the first value the invariant is that of a longer list.
  induction n generalizing I acc with
  | zero => exact .pure ⟨[], rfl, rfl, nofun, hacc⟩
  | succ n ih =>
      refine .bind hitem fun taken a ha => ?_
      obtain ⟨rfl, ha⟩ := ha
      have hresult : (Decoder.ofExcept (step acc a)).Takes fun taken acc' =>
          taken = [] ∧ step acc a = .ok acc' := .ofExcept fun acc' hacc' => ⟨rfl, hacc'⟩
      refine .bind hresult fun taken acc' hacc' => ?_
      obtain ⟨rfl, hacc'⟩ := hacc'
      have hrest := ih (I := fun l => I (a :: l)) (fun l => hstep (a :: l))
        (hstep [] acc a acc' hacc ha hacc')
      refine hrest.mono fun taken acc'' hrest => ?_
      obtain ⟨l, hlength, hbytes, hl, hI⟩ := hrest
      refine ⟨a :: l, ?_, ?_, ?_, hI⟩
      · rw [List.length_cons, hlength]
      · rw [hbytes, List.flatMap_cons, List.nil_append]
      · simpa using ⟨ha, hl⟩

/-- The same when each step of a loop over a list reads a value of its own. -/
theorem Takes.foldlM {ι γ : Type} {step : β → ι → Decoder β} {toBytes : γ → Bytes}
    {Q : γ → Prop} {I : List (ι × γ) → β → Prop}
    (hstep : ∀ l acc i, I l acc → (step acc i).Takes fun taken acc' => ∃ g : γ,
      taken = toBytes g ∧ Q g ∧ I (l ++ [(i, g)]) acc')
    (is : List ι) {acc : β} (hacc : I [] acc) :
    (is.foldlM step acc).Takes fun taken acc' => ∃ gs : List γ, gs.length = is.length ∧
      taken = gs.flatMap toBytes ∧ (∀ g ∈ gs, Q g) ∧ I (is.zip gs) acc' := by
  induction is generalizing I acc with
  | nil => exact .pure ⟨[], rfl, rfl, nofun, hacc⟩
  | cons i is ih =>
      rw [List.foldlM_cons]
      refine .bind (hstep [] acc i hacc) fun taken acc' hacc' => ?_
      obtain ⟨g, rfl, hg, hacc'⟩ := hacc'
      have hrest := ih (I := fun l => I ((i, g) :: l)) (fun l => hstep ((i, g) :: l)) hacc'
      refine hrest.mono fun taken acc'' hrest => ?_
      obtain ⟨gs, hlength, hbytes, hgs, hI⟩ := hrest
      refine ⟨g :: gs, ?_, ?_, ?_, hI⟩
      · rw [List.length_cons, List.length_cons, hlength]
      · rw [hbytes, List.flatMap_cons]
      · simpa using ⟨hg, hgs⟩

end Takes

/-! ### More bytes -/

section Stable

variable {d : Decoder α} {bytes rest : Bytes} {a : α}

/-- Unless the bytes run out, more bytes at the end change nothing but what is left. -/
def Stable (d : Decoder α) : Prop :=
  ∀ bytes more : Bytes, d bytes = .error .truncated ∨
    d (bytes ++ more) = (d bytes).map fun x => (x.1, x.2 ++ more)

theorem Stable.pure (a : α) : (Pure.pure a : Decoder α).Stable := fun _ _ => Or.inr rfl

theorem Stable.throw (e : StorageError) : (MonadExcept.throw e : Decoder α).Stable :=
  fun _ _ => Or.inr rfl

/-- A refusal ends the decoder, whatever was to come. -/
theorem Stable.throw_bind (e : StorageError) (f : α → Decoder β) :
    ((MonadExcept.throw e : Decoder α) >>= f).Stable := fun _ _ => Or.inr rfl

theorem Stable.ofExcept (result : Except StorageError α) : (ofExcept result).Stable := by
  intro bytes more
  cases result with
  | error e => exact Or.inr rfl
  | ok a => exact Or.inr rfl

theorem Stable.bind {f : α → Decoder β} (hd : d.Stable) (hf : ∀ a, (f a).Stable) :
    (d >>= f).Stable := by
  intro bytes more
  show (d bytes >>= fun x => f x.1 x.2) = _ ∨
    (d (bytes ++ more) >>= fun x => f x.1 x.2) = Except.map _ (d bytes >>= fun x => f x.1 x.2)
  rcases hd bytes more with hshort | hsame
  · rw [hshort]
    exact Or.inl rfl
  · rw [hsame]
    cases d bytes with
    | error e => exact Or.inr rfl
    | ok x =>
        -- The second decoder starts on what the first has left, and the extra bytes are
        -- behind that.
        exact hf x.1 x.2 more

theorem stable_take (n : Nat) : (take n).Stable := by
  intro bytes more
  unfold take
  cases hsplit : split? n bytes with
  | none => exact Or.inl rfl
  | some x =>
      right
      obtain ⟨hbytes, hlength⟩ := eq_append_of_split? hsplit
      rw [hbytes, List.append_assoc, ← hlength, split?_append]
      rfl

theorem stable_little (n : Nat) : (little n).Stable := (stable_take n).bind fun _ => .pure _

theorem Stable.fold {item : Decoder α} (hitem : item.Stable)
    (step : β → α → Except StorageError β) (n : Nat) (acc : β) : (fold item step n acc).Stable := by
  induction n generalizing acc with
  | zero => exact .pure acc
  | succ n ih => exact .bind hitem fun a => .bind (.ofExcept (step acc a)) fun acc' => ih acc'

theorem Stable.foldlM {ι : Type} {step : β → ι → Decoder β} (hstep : ∀ acc i, (step acc i).Stable)
    (l : List ι) (acc : β) : (l.foldlM step acc).Stable := by
  induction l generalizing acc with
  | nil => exact .pure acc
  | cons i l ih =>
      rw [List.foldlM_cons]
      exact .bind (hstep acc i) fun acc' => ih acc'

/-- A value that was returned is returned again when more bytes follow. -/
theorem Stable.append (hd : d.Stable) (hrun : d bytes = .ok (a, rest)) (more : Bytes) :
    d (bytes ++ more) = .ok (a, rest ++ more) := by
  rcases hd bytes more with hshort | hsame
  · rw [hrun] at hshort
    cases hshort
  · rw [hsame, hrun]
    rfl

/-- On a part of bytes that are read to the end, the bytes run out and nothing else goes
wrong. -/
theorem Stable.truncated_of_part (hd : d.Stable) (hrun : d bytes = .ok (a, [])) {part : Bytes}
    (hpart : part <+: bytes) (hne : part ≠ bytes) : d part = .error .truncated := by
  obtain ⟨more, rfl⟩ := hpart
  rcases hd part more with hshort | hsame
  · exact hshort
  -- What was decided on the part would be decided on the whole, where nothing is left.
  rw [hrun] at hsame
  cases hfirst : d part with
  | error e =>
      rw [hfirst] at hsame
      cases hsame
  | ok x =>
      rw [hfirst] at hsame
      have hleft : x.2 ++ more = [] := by
        injection hsame with hsame
        exact (congrArg Prod.snd hsame).symm
      obtain ⟨-, rfl⟩ := List.append_eq_nil_iff.mp hleft
      exact absurd (List.append_nil part).symm hne

end Stable

end Decoder

end PeerCache
