import Rowset.Proofs.Cursor.Ownership

/-!
# All ways of taking the rows that are left

`Yields` is asking for one row after the other up to the first answer that is none, and says nothing of how many
rounds that takes.  Every cursor comes to such an end, in one way only, and whoever takes many rows gets there:
`fetchAll` hides the rows behind an error, `stream` gives them all and the error last, and taking them into a
list puts one row in place of the other (`Fills`).  The main statement is `Cursor.concordance`.
-/

namespace Rowset

namespace Cursor

section

variable {σ τ : Type} [Cursor σ] [Cursor τ]

/-! ## Row by row -/

/-- Asking `c` for rows gives `rows` and then nothing more, or the error `fault`, and leaves the last cursor. -/
inductive Yields : σ → List Row → Option Error → σ → Prop
  | ended {c c' : σ} (h : next c = (.ok none, c')) : Yields c [] none c'
  | failed {c c' : σ} {e : Error} (h : next c = (.error e, c')) : Yields c [] (some e) c'
  | row {c c' c'' : σ} {row : Row} {rows : List Row} {fault : Option Error}
      (h : next c = (.ok (some row), c')) (rest : Yields c' rows fault c'') : Yields c (row :: rows) fault c''

/-- Taking rows into the list `dest` puts the lists `seen` there, one in place of the other, and ends in the same
two ways as `Yields`; `last` is there at the end. -/
inductive Fills : σ → List Value → List (List Value) → Option Error → List Value → σ → Prop
  | ended {c c' : σ} {dest last : List Value} (h : nextInto c dest = ((.ok false, last), c')) :
      Fills c dest [] none last c'
  | failed {c c' : σ} {dest last : List Value} {e : Error} (h : nextInto c dest = ((.error e, last), c')) :
      Fills c dest [] (some e) last c'
  | row {c c' c'' : σ} {dest values last : List Value} {seen : List (List Value)} {fault : Option Error}
      (h : nextInto c dest = ((.ok true, values), c')) (rest : Fills c' values seen fault last c'') :
      Fills c dest (values :: seen) fault last c''

variable {c c' : σ} {rows : List Row} {fault : Option Error}

/-- There is only one way to the end. -/
theorem Yields.unique (h : Yields c rows fault c') {rows' : List Row} {fault' : Option Error} {d : σ}
    (h' : Yields c rows' fault' d) : rows' = rows ∧ fault' = fault ∧ d = c' := by
  induction h generalizing rows' fault' with
  | ended hn =>
    cases h' with
    | ended hn' => cases hn.symm.trans hn'; exact ⟨rfl, rfl, rfl⟩
    | failed hn' => cases hn.symm.trans hn'
    | row hn' _ => cases hn.symm.trans hn'
  | failed hn =>
    cases h' with
    | ended hn' => cases hn.symm.trans hn'
    | failed hn' => cases hn.symm.trans hn'; exact ⟨rfl, rfl, rfl⟩
    | row hn' _ => cases hn.symm.trans hn'
  | row hn _ ih =>
    cases h' with
    | ended hn' => cases hn.symm.trans hn'
    | failed hn' => cases hn.symm.trans hn'
    | row hn' rest' =>
      cases hn.symm.trans hn'
      obtain ⟨rfl, rfl, rfl⟩ := ih rest'
      exact ⟨rfl, rfl, rfl⟩

/-- Cursors that answer `next` alike, over and over, yield the same. -/
theorem Yields.transfer {R : σ → τ → Prop}
    (hnext : ∀ {c : σ} {d : τ}, R c d → (next c).1 = (next d).1 ∧ R (next c).2 (next d).2)
    (h : Yields c rows fault c') {d : τ} (hr : R c d) : ∃ d', Yields d rows fault d' ∧ R c' d' := by
  induction h generalizing d with
  | ended hn =>
    have hstep := hnext hr
    rw [hn] at hstep
    exact ⟨_, .ended (Prod.ext hstep.1.symm rfl), hstep.2⟩
  | failed hn =>
    have hstep := hnext hr
    rw [hn] at hstep
    exact ⟨_, .failed (Prod.ext hstep.1.symm rfl), hstep.2⟩
  | row hn _ ih =>
    have hstep := hnext hr
    rw [hn] at hstep
    obtain ⟨d', hrest, hafter⟩ := ih hstep.2
    exact ⟨d', .row (Prod.ext hstep.1.symm rfl) hrest, hafter⟩

/-! ## Into a list -/

/-- What `nextInto` answers and leaves in the list, by what `next` answers. -/
theorem Yields.fills (h : Yields c rows fault c') (dest : List Value) :
    Fills c dest (rows.map (·.values)) fault ((rows.map (·.values)).getLastD dest) c' := by
  induction h generalizing dest with
  | ended hn => exact .ended (by rw [nextInto_eq, hn]; rfl)
  | failed hn => exact .failed (by rw [nextInto_eq, hn]; rfl)
  | @row c _ _ row rows _ hn _ ih =>
    have hinto : nextInto c dest = ((.ok true, row.values), (next c).2) := by rw [nextInto_eq, hn]
    rw [hn] at hinto
    rw [List.map_cons, List.getLastD_cons]
    exact .row hinto (ih row.values)

/-! ## All at once -/

variable [Bounded σ]

open Bounded

theorem ahead_lt {row : Row} (h : next c = (.ok (some row), c')) : ahead c' < ahead c := by
  have hlt := ahead_next (congrArg Prod.fst h)
  rwa [h] at hlt

/-- Every cursor comes to an end: each row takes something away from what is ahead. -/
theorem exists_yields (c : σ) : ∃ rows fault c', Yields c rows fault c' := by
  induction hn : ahead c using Nat.strongRecOn generalizing c with
  | ind n ih =>
    match hnext : next c with
    | (.ok none, c') => exact ⟨_, _, _, .ended hnext⟩
    | (.error e, c') => exact ⟨_, _, _, .failed hnext⟩
    | (.ok (some row), c') =>
      obtain ⟨rows, fault, c'', hrest⟩ := ih (ahead c') (hn ▸ ahead_lt hnext) c' rfl
      exact ⟨_, _, _, .row hnext hrest⟩

/-- With enough rounds, taking all rows gets to the end. -/
theorem Yields.fetch (h : Yields c rows fault c') {fuel : Nat} (hfuel : ahead c ≤ fuel) (seen : List Row) :
    Cursor.fetch (fuel + 1) seen c = (fault.elim (.ok (seen.reverse ++ rows)) .error, c') := by
  induction h generalizing fuel seen with
  | ended hn =>
    rw [fetch_succ, hn]
    simp
  | failed hn =>
    rw [fetch_succ, hn]
    rfl
  | @row c c' _ row rows fault hn _ ih =>
    have hlt := ahead_lt hn
    obtain ⟨n, rfl⟩ : ∃ n, fuel = n + 1 := ⟨fuel - 1, by omega⟩
    rw [fetch_succ, hn]
    show Cursor.fetch (n + 1) (row :: seen) c' = _
    rw [ih (by omega), List.reverse_cons, List.append_assoc]
    rfl

theorem Yields.answers (h : Yields c rows fault c') {fuel : Nat} (hfuel : ahead c ≤ fuel)
    (seen : List (Except Error Row)) :
    Cursor.answers (fuel + 1) seen c = (seen.reverse ++ rows.map .ok ++ (fault.map .error).toList, c') := by
  induction h generalizing fuel seen with
  | ended hn =>
    rw [answers_succ, hn]
    simp
  | failed hn =>
    rw [answers_succ, hn]
    simp
  | @row c c' _ row rows fault hn _ ih =>
    have hlt := ahead_lt hn
    obtain ⟨n, rfl⟩ : ∃ n, fuel = n + 1 := ⟨fuel - 1, by omega⟩
    rw [answers_succ, hn]
    show Cursor.answers (n + 1) (.ok row :: seen) c' = _
    rw [ih (by omega)]
    simp

theorem Yields.fetchAll (h : Yields c rows fault c') :
    Cursor.fetchAll c = (fault.elim (.ok rows) .error, c') :=
  h.fetch (ahead_le c) []

theorem Yields.stream (h : Yields c rows fault c') :
    Cursor.stream c = (rows.map .ok ++ (fault.map .error).toList, release c') := by
  unfold Cursor.stream
  rw [h.answers (ahead_le c) []]
  rfl

/-! ## In every state -/

/-- All ways of taking the rows that are left in the current result set of `c` agree with asking for them one by
one. -/
structure Concordant (c : σ) : Prop where
  /-- Taking a row into a list is asking for it. -/
  into : ∀ dest, (nextInto c dest).2 = (next c).2 ∧ (nextInto c dest).1.1 = (next c).1.map Option.isSome
  filled : ∀ dest, (nextInto c dest).1.1 = .ok true →
    ∃ row, (next c).1 = .ok (some row) ∧ (nextInto c dest).1.2 = row.values
  kept : ∀ dest, (nextInto c dest).1.1 ≠ .ok true → (nextInto c dest).1.2 = dest
  /-- There is one end, and all ways lead there. -/
  drains : ∃ rows fault c', Yields c rows fault c' ∧
    (∀ rows' fault' d, Yields c rows' fault' d → rows' = rows ∧ fault' = fault ∧ d = c') ∧
    (∀ dest, Fills c dest (rows.map (·.values)) fault ((rows.map (·.values)).getLastD dest) c') ∧
    Cursor.fetchAll c = (fault.elim (.ok rows) .error, c') ∧
    Cursor.stream c = (rows.map .ok ++ (fault.map .error).toList, release c')

theorem concordant (c : σ) : Concordant c where
  into dest := by
    rw [nextInto_eq]
    match (next c).1 with
    | .ok (some row) => exact ⟨rfl, rfl⟩
    | .ok none => exact ⟨rfl, rfl⟩
    | .error e => exact ⟨rfl, rfl⟩
  filled dest h := by
    rw [nextInto_eq] at h ⊢
    match hn : (next c).1 with
    | .ok (some row) => exact ⟨row, rfl, rfl⟩
    | .ok none => rw [hn] at h; cases h
    | .error e => rw [hn] at h; cases h
  kept dest h := by
    rw [nextInto_eq] at h ⊢
    match hn : (next c).1 with
    | .ok (some row) => rw [hn] at h; exact absurd rfl h
    | .ok none => rfl
    | .error e => rfl
  drains := by
    obtain ⟨rows, fault, c', h⟩ := exists_yields c
    exact ⟨rows, fault, c', h, fun _ _ _ h' => h.unique h', h.fills, h.fetchAll, h.stream⟩

end

/-- Whatever was done before, all ways of taking the rows that are left agree, over bodies and over documents.  A
cursor over bodies that is made a stream gives them all up. -/
theorem concordance :
    (∀ bodies params ops, Concordant (run (StreamingCursor.ofBodies bodies params) ops) ∧
      (stream (run (StreamingCursor.ofBodies bodies params) ops)).2.current = none ∧
      (stream (run (StreamingCursor.ofBodies bodies params) ops)).2.remaining = [] ∧
      (stream (run (StreamingCursor.ofBodies bodies params) ops)).2.released = List.range bodies.length) ∧
    ∀ ds b, BufferedCursor.ofDocuments ds = .ok b → ∀ ops, Concordant (run b ops) := by
  refine ⟨fun bodies params ops => ?_, fun ds b _ ops => concordant (run b ops)⟩
  have haccounts := (StreamingCursor.accounts_invariant bodies.length).run
    (StreamingCursor.accounts_ofBodies bodies params) ops
  exact ⟨concordant _, rfl, rfl, haccounts.owns.streamed⟩

/-- A row that fails in the middle: asking again goes on behind it. -/
theorem concordance_sample :
    BufferedCursor.ofDocuments faultyCursor.documents = .ok faultyCursor ∧
      Concordant (run faultyCursor [.fetchAll]) ∧
      (fetchAll (run faultyCursor [.fetchAll])).1.map List.length = .ok 1 ∧
      (stream (run faultyCursor [.fetchAll])).1.length = 1 := by
  have hb : BufferedCursor.ofDocuments faultyCursor.documents = .ok faultyCursor := by with_unfolding_all rfl
  exact ⟨hb, concordance.2 _ _ hb [.fetchAll], by with_unfolding_all rfl, by with_unfolding_all rfl⟩

end Cursor

end Rowset
