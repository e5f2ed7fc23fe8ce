import Formulary.Proofs.Composition

/-
  What a formula was made from can be recovered.

  A substitution is taken back by the one that goes the other way
  (`substitute_back`), if the tag that it brought in did not occur before and
  does not hold its own first character twice. Such a tag cannot begin in the
  text around it and reach into an inserted one, so it occurs exactly where it
  was inserted (`prefix_of_prefix_replaceFrom`).

  The parts of a formula can be told from each other without a mark between
  them. The tag of a symbol ends where a capital or a digit stands, and a count
  where a digit does not (`append_eq_append_of_runs`), so a formula has one
  composition (`parts_eq_of_material`).
-/

namespace Formulary

open Text

/-! Replacing there and back. -/

namespace Text

variable {old : List Char}

/-- Induction along the way in which a text is replaced in: by an occurrence, or
by a character at which none begins. -/
theorem replaceInduction (hold : old ≠ []) {P : List Char → Prop} (nil : P [])
    (occurrence : ∀ rest, P rest → P (old ++ rest))
    (char : ∀ c cs, ¬ old <+: c :: cs → P cs → P (c :: cs)) : ∀ cs, P cs
  | [] => nil
  | c :: cs => by
    by_cases h : old <+: c :: cs
    · obtain ⟨rest, hrest⟩ := h
      have hshorter : rest.length < (c :: cs).length := by
        have hpos := List.length_pos_iff.2 hold
        rw [← hrest, List.length_append]
        omega
      rw [← hrest]
      exact occurrence rest (replaceInduction hold nil occurrence char rest)
    · exact char c cs h (replaceInduction hold nil occurrence char cs)
termination_by cs => cs.length
decreasing_by
  · exact hshorter
  · exact Nat.lt_succ_self cs.length

theorem infix_replaceFrom (hold : old ≠ []) (new : List Char) {cs : List Char}
    (h : old <:+: cs) : new <:+: replaceFrom old new 0 cs := by
  induction cs using replaceInduction hold with
  | nil => exact absurd (List.infix_nil.1 h) hold
  | occurrence rest _ =>
    rw [replaceFrom_occurrence new hold]
    exact (List.prefix_append _ _).isInfix
  | char c cs hc ih =>
    rw [replaceFrom_cons hc]
    exact List.infix_cons (ih ((List.infix_cons_iff.1 h).resolve_left hc))

/-- A text that the first of the inserted characters is not in reaches into no
insertion, so where it stands at the start it stood there before. -/
theorem prefix_of_prefix_replaceFrom (hold : old ≠ []) {c : Char} {new run cs : List Char}
    (hc : c ∉ run) (h : run <+: replaceFrom old (c :: new) 0 cs) : run <+: cs := by
  induction cs using replaceInduction hold generalizing run with
  | nil => exact h
  | occurrence rest _ =>
    rw [replaceFrom_occurrence _ hold, List.cons_append] at h
    cases run with
    | nil => exact List.nil_prefix
    | cons d run =>
      obtain ⟨rfl, -⟩ := List.cons_prefix_cons.1 h
      exact absurd List.mem_cons_self hc
  | char d cs hd ih =>
    rw [replaceFrom_cons hd] at h
    cases run with
    | nil => exact List.nil_prefix
    | cons e run =>
      obtain ⟨rfl, hrun⟩ := List.cons_prefix_cons.1 h
      exact List.cons_prefix_cons.2 ⟨rfl, ih (fun hmem => hc (List.mem_cons_of_mem _ hmem)) hrun⟩

theorem replaceFrom_back (hold : old ≠ []) {c : Char} {new cs : List Char} (hc : c ∉ new)
    (hout : ¬ c :: new <:+: cs) :
    replaceFrom (c :: new) old 0 (replaceFrom old (c :: new) 0 cs) = cs := by
  induction cs using replaceInduction hold with
  | nil => rfl
  | occurrence rest ih =>
    have hrest : ¬ c :: new <:+: rest := fun h => hout (h.trans (List.suffix_append _ _).isInfix)
    rw [replaceFrom_occurrence _ hold, replaceFrom_occurrence _ (by simp), ih hrest]
  | char d cs hd ih =>
    have hrest : ¬ c :: new <:+: cs := fun h => hout (List.infix_cons h)
    -- an occurrence that begins at `d` would have been one before
    have hat : ¬ c :: new <+: d :: replaceFrom old (c :: new) 0 cs := by
      intro h
      obtain ⟨rfl, hnew⟩ := List.cons_prefix_cons.1 h
      have hbefore := prefix_of_prefix_replaceFrom hold hc hnew
      exact hout (List.cons_prefix_cons.2 ⟨rfl, hbefore⟩).isInfix
    rw [replaceFrom_cons hd, replaceFrom_cons hat, ih hrest]

end Text

theorem substitute_of_occurs {f a : String} (b : String) (ha : a.toList ≠ [])
    (h : a.toList <:+: f.toList) :
    substitute [.str f, .elem a, .elem b] =
      .ok (.str (String.ofList (replaceFrom a.toList b.toList 0 f.toList))) := by
  rw [substitute, substituteTag, if_pos (occursIn_iff.2 h), replaceAll, if_neg (by simpa using ha)]
  rfl

/-- A substitution is taken back by the one that goes the other way: where the
new tag did not occur, and its first character is not in it again, the formula
is what it was. -/
theorem substitute_back {f a b : String} {c : Char} {cs : List Char} (ha : a ≠ "")
    (hb : b.toList = c :: cs) (hc : c ∉ cs) (hin : a.toList <:+: f.toList)
    (hout : ¬ b.toList <:+: f.toList) :
    ∃ g, substitute [.str f, .elem a, .elem b] = .ok (.str g) ∧
      substitute [.str g, .elem b, .elem a] = .ok (.str f) := by
  have hold : a.toList ≠ [] := by simpa using ha
  have hnew : b.toList ≠ [] := by simp [hb]
  refine ⟨_, substitute_of_occurs b hold hin, ?_⟩
  have hoccurs := infix_replaceFrom hold b.toList hin
  rw [substitute_of_occurs a hnew (by rwa [String.toList_ofList]), String.toList_ofList, hb,
    replaceFrom_back hold hc (by rwa [← hb]), String.ofList_toList]

/-- Carbon begins like cobalt, and stands where it could take a character from
the tag that follows it. -/
theorem substitute_back_cobalt :
    ∃ g, substitute [.str "CFe2COFe", .elem "Fe", .elem "Co"] = .ok (.str g) ∧
      substitute [.str g, .elem "Co", .elem "Fe"] = .ok (.str "CFe2COFe") :=
  have hcobalt : "Co".toList = 'C' :: ['o'] := by decide
  substitute_back (by decide) hcobalt (by decide) (by decide +kernel) (by decide +kernel)

-- A tag that ends as it begins is found half in the text and half in itself.
example : substitute [.str "abA", .elem "A", .elem "aba"] = .ok (.str "ababa") ∧
    substitute [.str "ababa", .elem "aba", .elem "A"] = .ok (.str "Aba") :=
  ⟨by decide +kernel, by decide +kernel⟩

/-! Telling parts from each other. -/

/-- Two texts that go on with what they hold none of, and are the same together
with that, are the same each. -/
theorem append_eq_append_of_runs {p : Char → Bool} {run run' rest rest' : List Char}
    (hrun : ∀ c ∈ run, p c = true) (hrun' : ∀ c ∈ run', p c = true)
    (hrest : ∀ c ∈ rest.head?, p c = false) (hrest' : ∀ c ∈ rest'.head?, p c = false)
    (h : run ++ rest = run' ++ rest') : run = run' ∧ rest = rest' := by
  have hsame : run = run' := by
    rw [← takeWhile_run hrun hrest, h, takeWhile_run hrun' hrest']
  subst hsame
  exact ⟨rfl, List.append_cancel_left h⟩

theorem isAsciiDigit_of_head? {parts : List (String × Nat)}
    (h : ∀ p ∈ parts, isSymbol p.1.toList = true) :
    ∀ c ∈ (parts.flatMap partChars).head?, isAsciiDigit c = false := by
  intro c hc
  cases parts with
  | nil => cases hc
  | cons p parts =>
    obtain ⟨d, ds, hp, hd, -⟩ := exists_of_isSymbol (h p List.mem_cons_self)
    obtain rfl : d = c := by simpa [partChars, hp] using hc
    exact isAsciiDigit_of_isUpper hd

theorem countChars_injective {m n : Nat} (h : countChars m = countChars n) : m = n := by
  unfold countChars at h
  split at h <;> split at h
  · omega
  · exact absurd h.symm Nat.toDigits_ne_nil
  · exact absurd h Nat.toDigits_ne_nil
  · rw [← natOfDigits_toDigits m, h, natOfDigits_toDigits]

/-- A formula has one composition. -/
theorem flatMap_partChars_injective : ∀ {parts parts' : List (String × Nat)},
    (∀ p ∈ parts, isSymbol p.1.toList = true) → (∀ p ∈ parts', isSymbol p.1.toList = true) →
    parts.flatMap partChars = parts'.flatMap partChars → parts = parts'
  | [], [], _, _, _ => rfl
  | [], p :: parts, _, hsym, h => by
    obtain ⟨c, cs, hp, -⟩ := exists_of_isSymbol (hsym p List.mem_cons_self)
    simp [partChars, hp] at h
  | p :: parts, [], hsym, _, h => by
    obtain ⟨c, cs, hp, -⟩ := exists_of_isSymbol (hsym p List.mem_cons_self)
    simp [partChars, hp] at h
  | (tag, m) :: parts, (tag', n) :: parts', hsym, hsym', h => by
    obtain ⟨hfirst, hparts⟩ := List.forall_mem_cons.1 hsym
    obtain ⟨hfirst', hparts'⟩ := List.forall_mem_cons.1 hsym'
    obtain ⟨c, cs, htag, -, hcs⟩ := exists_of_isSymbol hfirst
    obtain ⟨c', cs', htag', -, hcs'⟩ := exists_of_isSymbol hfirst'
    simp only [List.flatMap_cons, partChars, htag, htag', List.cons_append, List.append_assoc,
      List.cons.injEq] at h
    obtain ⟨hcapital, hafter⟩ := h
    obtain ⟨hsmall, hafter⟩ := append_eq_append_of_runs (p := fun d => !endsSymbol d)
      (fun d hd => by simp [hcs d hd]) (fun d hd => by simp [hcs' d hd])
      (fun d hd => by simp [endsSymbol_of_head? hparts m d hd])
      (fun d hd => by simp [endsSymbol_of_head? hparts' n d hd]) hafter
    obtain ⟨hcount, hafter⟩ := append_eq_append_of_runs (p := isAsciiDigit)
      (fun d => isAsciiDigit_of_mem_countChars) (fun d => isAsciiDigit_of_mem_countChars)
      (isAsciiDigit_of_head? hparts) (isAsciiDigit_of_head? hparts') hafter
    have htags : tag = tag' := by
      rw [← String.toList_inj, htag, htag', hcapital, hsmall]
    rw [htags, countChars_injective hcount, flatMap_partChars_injective hparts hparts' hafter]

/-- A formula determines its composition: the tags, their counts and the order
of the parts. -/
theorem parts_eq_of_material {parts parts' : List (String × Nat)} {f : Value}
    (hsym : ∀ p ∈ parts, isSymbol p.1.toList = true) (hcount : ∀ p ∈ parts, 1 ≤ p.2)
    (hsym' : ∀ p ∈ parts', isSymbol p.1.toList = true) (hcount' : ∀ p ∈ parts', 1 ≤ p.2)
    (h : material (partForms parts) = .ok f) (h' : material (partForms parts') = .ok f) :
    parts = parts' := by
  rw [material_partForms hcount] at h
  rw [material_partForms hcount'] at h'
  have hformula : formulaOf parts = formulaOf parts' := by
    have hsame := h.trans h'.symm
    simpa using hsame
  apply flatMap_partChars_injective hsym hsym'
  rw [← toList_formulaOf, ← toList_formulaOf, hformula]

/-- Iron replaced by cobalt before the formula is written, and cobalt written at
once: a tag twice, a count of one and a count of two digits. -/
theorem parts_eq_of_material_cobalt :
    material (partForms (replaceTag "Fe" "Co" [("Fe", 2), ("O", 1), ("C", 3), ("Fe", 12)])) =
      .ok (.str "Co2OC3Co12") ∧
    material (partForms [("Co", 2), ("O", 1), ("C", 3), ("Co", 12)]) = .ok (.str "Co2OC3Co12") ∧
    replaceTag "Fe" "Co" [("Fe", 2), ("O", 1), ("C", 3), ("Fe", 12)] =
      [("Co", 2), ("O", 1), ("C", 3), ("Co", 12)] :=
  have hfirst : material (partForms (replaceTag "Fe" "Co"
      [("Fe", 2), ("O", 1), ("C", 3), ("Fe", 12)])) = .ok (.str "Co2OC3Co12") := by decide +kernel
  have hsecond : material (partForms [("Co", 2), ("O", 1), ("C", 3), ("Co", 12)]) =
      .ok (.str "Co2OC3Co12") := by decide +kernel
  ⟨hfirst, hsecond, parts_eq_of_material (by decide +kernel) (by decide) (by decide +kernel)
    (by decide) hfirst hsecond⟩

-- A tag with a digit in it is taken for a tag and its count.
example : material (partForms [("H2", 1), ("O", 1)]) = .ok (.str "H2O") ∧
    material (partForms [("H", 2), ("O", 1)]) = .ok (.str "H2O") :=
  ⟨by decide +kernel, by decide +kernel⟩

end Formulary
