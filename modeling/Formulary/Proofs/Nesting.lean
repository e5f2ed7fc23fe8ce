import Formulary.Proofs.Reading

/-
  How deep forms nest, and how much the reader has open at a time.

  What is open fixes how deep the form around it nests at least, and that never
  shrinks while the reader goes on (`nesting_readTokens`). So a bound on what is
  open at a time refuses exactly the texts that hold a form nested deeper than
  the bound, and changes nothing about the others (`readAllWithin_some_eq_ok`).
-/

namespace Formulary

mutual

/-- How many lists and quotes stand around the innermost part of a form. -/
def Value.nesting : Value → Nat
  | .list items => 1 + itemsNesting items
  | _ => 0

def itemsNesting : List Value → Nat
  | [] => 0
  | v :: vs => max v.nesting (itemsNesting vs)

end

theorem itemsNesting_le {vs : List Value} {n : Nat} :
    itemsNesting vs ≤ n ↔ ∀ v ∈ vs, v.nesting ≤ n := by
  induction vs with
  | nil => simp [itemsNesting]
  | cons v vs ih => simp only [itemsNesting, Nat.max_le, ih, List.forall_mem_cons]

theorem itemsNesting_reverse (vs : List Value) : itemsNesting vs.reverse = itemsNesting vs := by
  apply Nat.le_antisymm
  · exact itemsNesting_le.2 fun v hv => itemsNesting_le.1 (Nat.le_refl _) v (List.mem_reverse.1 hv)
  · exact itemsNesting_le.2 fun v hv => itemsNesting_le.1 (Nat.le_refl _) v (List.mem_reverse.2 hv)

theorem nesting_quote (v : Value) : v.quote.nesting = v.nesting + 1 := by
  simp [Value.quote, Value.nesting, itemsNesting, Nat.add_comm]

theorem nesting_readAtom {t : Token} {v : Value} (h : readAtom t = .ok v) : v.nesting = 0 := by
  cases v with
  | list items => exact absurd rfl (readAtom_ne_list h items)
  | _ => rfl

/-- How deep the form around what is open nests with what it holds so far. -/
def openNesting : List Opened → Nat
  | [] => 0
  | .quote _ :: rest => max (openNesting rest) (rest.length + 1)
  | .list _ items :: rest => max (openNesting rest) (rest.length + 1 + itemsNesting items)

theorem length_le_openNesting : ∀ opened : List Opened, opened.length ≤ openNesting opened
  | [] => Nat.le_refl 0
  | .quote _ :: rest => by
    simp only [List.length_cons, openNesting]
    omega
  | .list _ items :: rest => by
    simp only [List.length_cons, openNesting]
    omega

/-- How deep the forms nest that a reader has read or is about to. -/
def Standing.nesting (s : Standing) : Nat := max (openNesting s.opened) (itemsNesting s.read)

theorem nesting_close (before : List Opened) (read : List Value) :
    ∀ (opened : List Opened) (v : Value),
      (Standing.move ⟨before, read⟩ (close opened v)).nesting =
        max (max (openNesting opened) (opened.length + v.nesting)) (itemsNesting read)
  | [], v => by simp [close, Standing.move, Standing.nesting, openNesting, itemsNesting]
  | .quote _ :: rest, v => by
    rw [close, nesting_close before read rest, nesting_quote, openNesting, List.length_cons]
    omega
  | .list _ items :: rest, v => by
    simp only [close, Standing.move, Standing.nesting, openNesting, itemsNesting, List.length_cons]
    omega

/-- Only an opening parenthesis or a quote can make the forms nest deeper, and no
deeper than what is then open. -/
theorem nesting_readToken {limit : Option Nat} {s : Standing} {t : Token} {p : Progress}
    (h : readToken limit s.opened t = .ok p) :
    s.nesting ≤ (s.move p).nesting ∧
      (s.move p).nesting ≤ max s.nesting (s.move p).opened.length := by
  obtain ⟨opened, read⟩ := s
  have hopen := length_le_openNesting opened
  obtain ⟨-, ⟨-, rfl⟩ | ⟨-, rfl⟩ | ⟨-, o, items, rest, rfl, rfl⟩ | ⟨v, hv, rfl⟩⟩ :=
    readToken_cases h
  · simp only [Standing.nesting, Standing.move, openNesting, itemsNesting, List.length_cons]
    omega
  · simp only [Standing.nesting, Standing.move, openNesting, List.length_cons]
    omega
  · rw [nesting_close]
    simp only [Standing.nesting, openNesting, Value.nesting, itemsNesting_reverse]
    omega
  · rw [nesting_close, nesting_readAtom hv]
    simp only [Standing.nesting]
    omega

theorem nesting_readTokens {limit : Option Nat} : ∀ {ts : List Token} {s r : Standing},
    readTokens limit s ts = .ok r → s.nesting ≤ r.nesting
  | [], s, r, h => by
    cases h
    exact Nat.le_refl _
  | t :: ts, s, r, h => by
    obtain ⟨p, hp, hrun⟩ := readTokens_cons_eq_ok h
    exact Nat.le_trans (nesting_readToken hp).1 (nesting_readTokens hrun)

/-! A bound on what is open. -/

theorem readToken_some {n : Nat} {opened : List Opened} (h : opened.length ≤ n) (t : Token) :
    readToken (some n) opened t = readToken none opened t := by
  simp [readToken, Nat.not_lt.2 h]

/-- A run within the bound is a run without one, and what it has read nests no
deeper than the bound. -/
theorem readTokens_of_some {n : Nat} : ∀ {ts : List Token} {s r : Standing},
    readTokens (some n) s ts = .ok r → s.nesting ≤ max n s.opened.length →
    readTokens none s ts = .ok r ∧ r.nesting ≤ max n r.opened.length
  | [], _, _, h, hs => by
    cases h
    exact ⟨rfl, hs⟩
  | t :: ts, s, r, h, hs => by
    obtain ⟨p, hp, hrun⟩ := readTokens_cons_eq_ok h
    have hlen : s.opened.length ≤ n := by simpa using (readToken_cases hp).1
    have hstep := (nesting_readToken hp).2
    rw [readTokens_cons ((readToken_some hlen t).symm.trans hp)]
    exact readTokens_of_some hrun (by omega)

theorem readTokens_some {n : Nat} : ∀ {ts : List Token} {s r : Standing},
    readTokens none s ts = .ok r → r.nesting ≤ n → readTokens (some n) s ts = .ok r
  | [], _, _, h, _ => h
  | t :: ts, s, r, h, hn => by
    obtain ⟨p, hp, hrun⟩ := readTokens_cons_eq_ok h
    have hlen : s.opened.length ≤ n := by
      have hopen := length_le_openNesting s.opened
      have hgrows := nesting_readTokens h
      simp only [Standing.nesting] at hgrows hn
      omega
    rw [readTokens_cons ((readToken_some hlen t).trans hp)]
    exact readTokens_some hrun hn

/-- A bound refuses the forms that nest deeper, and nothing else. -/
theorem readAllWithin_some_eq_ok {source : String} {n : Nat} {forms : List Value} :
    readAllWithin (some n) source = .ok forms ↔
      readAll source = .ok forms ∧ ∀ v ∈ forms, v.nesting ≤ n := by
  have hnesting : (Standing.mk [] forms.reverse).nesting = itemsNesting forms := by
    simp [Standing.nesting, openNesting, itemsNesting_reverse]
  rw [readAll, readAllWithin_eq_ok, readAllWithin_eq_ok, ← itemsNesting_le, ← hnesting]
  constructor
  · rintro ⟨hlex, hrun⟩
    obtain ⟨hrun, hn⟩ := readTokens_of_some hrun (Nat.zero_le _)
    exact ⟨⟨hlex, hrun⟩, by simpa using hn⟩
  · rintro ⟨⟨hlex, hrun⟩, hn⟩
    exact ⟨hlex, readTokens_some hrun hn⟩

theorem readTokens_some_or (n : Nat) : ∀ (ts : List Token) (s : Standing),
    readTokens (some n) s ts = readTokens none s ts ∨
      readTokens (some n) s ts = .error (.parse .tooDeep)
  | [], _ => .inl rfl
  | t :: ts, s => by
    by_cases hlen : s.opened.length ≤ n
    · have hsame := readToken_some hlen t
      cases hp : readToken none s.opened t with
      | error e =>
        rw [readTokens_cons_error hp, readTokens_cons_error (hsame.trans hp)]
        exact .inl rfl
      | ok p =>
        rw [readTokens_cons hp, readTokens_cons (hsame.trans hp)]
        exact readTokens_some_or n ts (s.move p)
    · have hdeep : readToken (some n) s.opened t = .error (.parse .tooDeep) := by
        simp [readToken, Nat.lt_of_not_le hlen]
      exact .inr (readTokens_cons_error hdeep ts)

theorem readAllWithin_some_or (n : Nat) (source : String) :
    readAllWithin (some n) source = readAll source ∨
      readAllWithin (some n) source = .error (.parse .tooDeep) := by
  rw [readAll, readAllWithin_eq, readAllWithin_eq]
  rcases readTokens_some_or n (contentFrom 0 source.toList).tokens .start with hrun | hrun
  · exact .inl (by rw [hrun])
  · exact .inr (by rw [hrun]; rfl)

end Formulary
