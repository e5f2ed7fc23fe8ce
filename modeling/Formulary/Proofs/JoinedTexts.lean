import Formulary.Proofs.Reading

/-
  Texts joined by a line feed.

  A line feed ends whatever the text before it ends with: an atom, a comment or
  blanks, and a text literal that is read has its own end. So behind a text that
  lexes, a line feed and any other text give the tokens of the first and then
  those of the second (`contentFrom_joined`). A reader that has nothing open
  goes on as if it had just begun (`Lexed.Reads.followedBy`), and the forms of
  the joined text are those of its parts, in order (`readAllWithin_joined`).
-/

namespace Formulary

open Text

theorem contentFrom_line (o : Nat) (a : List Char) :
    contentFrom o (a ++ ['\n']) = contentFrom o a := by
  have hblank : ∀ c ∈ ['\n'], isBlank c = true := by
    intro c hc
    rw [List.mem_singleton.1 hc]
    decide
  have hquote : doubleQuote ∉ ['\n'] := by decide
  rw [contentFrom_append a (.inr hblank) o (.inl hquote), contentFrom_allBlank hblank]
  obtain ⟨ts, _ | e⟩ := contentFrom o a <;> simp [Lexed.followedBy]

theorem contentFrom_joined {o : Nat} {a : List Char} (ha : (contentFrom o a).failure = none)
    (b : List Char) :
    contentFrom o (a ++ '\n' :: b) =
      (contentFrom o a).followedBy (contentFrom (o + (a.length + 1)) b) := by
  have hseam : Seam (a ++ ['\n']) b := by
    refine .inl fun c hc => ?_
    rw [List.getLast?_concat, Option.mem_some_iff] at hc
    exact hc.symm
  have hends : (contentFrom o (a ++ ['\n'])).failure.any LexError.isUnterminated = false := by
    rw [contentFrom_line, ha]
    rfl
  calc contentFrom o (a ++ '\n' :: b)
      = contentFrom o (a ++ ['\n'] ++ b) := by rw [List.append_assoc, List.singleton_append]
    _ = (contentFrom o (a ++ ['\n'])).followedBy
          (contentFrom (o + (a ++ ['\n']).length) b) := contentFrom_append _ hseam o (.inr hends)
    _ = _ := by rw [contentFrom_line, List.length_append, List.length_singleton]

theorem Lexed.Reads.followedBy {limit : Option Nat} {l m : Lexed} {fs gs : List Value}
    (hl : l.Reads limit fs) (hm : m.Reads limit gs) :
    (l.followedBy m).Reads limit (fs ++ gs) := by
  have hjoin : l.followedBy m = ⟨l.tokens ++ m.tokens, m.failure⟩ := by
    rw [Lexed.followedBy, hl.lexes]
  rw [hjoin]
  refine ⟨hm.lexes, ?_⟩
  -- the second run starts with nothing open, and what was read before stays below
  have hsecond := readTokens_read limit fs.reverse m.tokens .start
  rw [hm.run] at hsecond
  show readTokens limit .start (l.tokens ++ m.tokens) = _
  rw [readTokens_append, hl.run, List.reverse_append]
  exact hsecond

/-- Texts that are read one by one are read joined by a line feed, and the forms
of the first come before those of the second: whatever the first ends with and
the second starts with, and whatever bound there is on what may be open. -/
theorem readAllWithin_joined (limit : Option Nat) {first second : String} {fs gs : List Value}
    (hfirst : readAllWithin limit first = .ok fs) (hsecond : readAllWithin limit second = .ok gs) :
    readAllWithin limit (first ++ "\n" ++ second) = .ok (fs ++ gs) := by
  rw [readAllWithin_eq_ok] at hfirst hsecond ⊢
  have htext : (first ++ "\n" ++ second).toList = first.toList ++ '\n' :: second.toList := by
    simp
  rw [htext, contentFrom_joined hfirst.lexes]
  exact hfirst.followedBy (hsecond.of_outline (outline_contentFrom _ _ _))

/-- A comment that runs to the end of the first text, and a second that starts
with an atom. -/
theorem readAllWithin_joined_comment :
    readAll ("(f 'a) -1 ;\"(" ++ "\n" ++ "b\")\n;\" #t") =
      .ok ([.list [.sym "f", Value.quote (.sym "a")], .int (-1)] ++
        [.sym "b", .str ")\n;", .bool true]) := by
  have hfirst : readAll "(f 'a) -1 ;\"(" =
      .ok [.list [.sym "f", Value.quote (.sym "a")], .int (-1)] := by decide +kernel
  have hsecond : readAll "b\")\n;\" #t" = .ok [.sym "b", .str ")\n;", .bool true] := by
    decide +kernel
  exact readAllWithin_joined none hfirst hsecond

end Formulary
