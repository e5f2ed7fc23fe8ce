import Formulary.Proofs.Lexing
import Mathlib.Data.List.TakeWhile

/-
  Where a text may be cut without changing its tokens.

  `contentFrom` lexes a text without the token for its end, so that the content
  of a text is the token of its first piece and the content of the rest. A text
  that ends in a line feed may be followed by anything, and any text may be
  followed by blanks (`Seam`): the pieces of the first part stay what they are,
  unless it stops inside of a text literal. So the content of the whole is that
  of the two parts (`contentFrom_append`). Blanks around a text change nothing
  but offsets (`outline_trim`).
-/

namespace Formulary

open Text

/-! Tokens before the end. -/

/-- The tokens of a text that starts at an offset of its source, without the one
for its end. -/
def contentFrom (o : Nat) (cs : List Char) : Lexed :=
  ⟨(piecesFrom 0 o cs).1.filterMap fun (o, p) => p.token? o, (piecesFrom 0 o cs).2⟩

/-- The content of a text with the token for its end, if it has no error. -/
def Lexed.ended (l : Lexed) (o : Nat) : Lexed :=
  match l.failure with
  | none => ⟨l.tokens ++ [⟨.eof, "", o⟩], none⟩
  | some e => ⟨l.tokens, some e⟩

/-- The tokens of one text and then of another that lexing goes on with. -/
def Lexed.followedBy (l m : Lexed) : Lexed :=
  match l.failure with
  | none => ⟨l.tokens ++ m.tokens, m.failure⟩
  | some e => ⟨l.tokens, some e⟩

theorem lexedFrom_eq_ended (o : Nat) (cs : List Char) :
    lexedFrom o cs = (contentFrom o cs).ended (o + cs.length) := by
  unfold lexedFrom contentFrom Lexed.ended
  rcases piecesFrom 0 o cs with ⟨ps, _ | e⟩ <;> rfl

theorem lex_eq_ended (source : String) :
    lex source = (contentFrom 0 source.toList).ended source.toList.length := by
  rw [lex, lexChars_eq_lexedFrom, lexedFrom_eq_ended, Nat.zero_add]

@[simp] theorem contentFrom_nil (o : Nat) : contentFrom o [] = ⟨[], none⟩ := rfl

theorem contentFrom_error {c : Char} {cs : List Char} {e : LexError} (o : Nat)
    (h : firstPiece c cs = .error e) : contentFrom o (c :: cs) = ⟨[], some (e.shift o)⟩ := by
  simp [contentFrom, piecesFrom_zero, h]

theorem contentFrom_piece {c : Char} {cs rest : List Char} {p : Piece} (o : Nat)
    (hp : firstPiece c cs = .ok p) (hr : c :: cs = p.raw ++ rest) (hne : p.raw ≠ []) :
    contentFrom o (c :: cs) =
      ⟨(p.token? o).toList ++ (contentFrom (o + p.raw.length) rest).tokens,
        (contentFrom (o + p.raw.length) rest).failure⟩ := by
  simp only [contentFrom, piecesFrom_piece o hp hr hne]
  cases ht : p.token? o <;> simp [ht]

/-- A text is nothing, or its first piece cannot be cut off, or what is shown of
the rest after the first piece is to be shown of the text. -/
theorem pieceInduction {motive : List Char → Prop} (nil : motive [])
    (error : ∀ c cs e, firstPiece c cs = .error e → motive (c :: cs))
    (piece : ∀ c cs p rest, firstPiece c cs = .ok p → c :: cs = p.raw ++ rest → p.raw ≠ [] →
      motive rest → motive (c :: cs)) (cs : List Char) : motive cs := by
  induction hn : cs.length using Nat.strongRecOn generalizing cs with
  | ind n ih =>
    cases cs with
    | nil => exact nil
    | cons c cs =>
      cases hp : firstPiece c cs with
      | error e => exact error c cs e hp
      | ok p =>
        obtain ⟨rest, hr, hne⟩ := firstPiece_raw hp
        have hlen : rest.length < n := by
          have hpos := List.length_pos_iff.mpr hne
          rw [← hn, hr, List.length_append]
          omega
        exact piece c cs p rest hp hr hne (ih rest.length hlen rest rfl)

theorem offset_contentFrom (cs : List Char) : ∀ (o : Nat) (t : Token),
    t ∈ (contentFrom o cs).tokens → (o : Int) ≤ t.offset ∧ t.offset < (o + cs.length : Nat) := by
  induction cs using pieceInduction with
  | nil =>
    intro o t ht
    cases ht
  | error c cs e hp =>
    intro o t ht
    rw [contentFrom_error o hp] at ht
    cases ht
  | piece c cs p rest hp hr hne ih =>
    intro o t ht
    have hpos := List.length_pos_iff.2 hne
    have hlen : (c :: cs).length = p.raw.length + rest.length := by rw [hr, List.length_append]
    rw [contentFrom_piece o hp hr hne] at ht
    rcases List.mem_append.1 ht with ht | ht
    · have hoffset := Piece.offset_token (Option.mem_toList.1 ht)
      omega
    · have := ih (o + p.raw.length) t ht
      omega

theorem contentFrom_blanks : ∀ {ws : List Char}, (∀ c ∈ ws, isBlank c = true) →
    ∀ (o : Nat) (cs : List Char), contentFrom o (ws ++ cs) = contentFrom (o + ws.length) cs
  | [], _, _, _ => rfl
  | w :: ws, h, o, cs => by
    have hblank : contentFrom o (w :: (ws ++ cs)) = contentFrom (o + 1) (ws ++ cs) := by
      have hlex := lexedFrom_blank o (ws ++ cs) (h w List.mem_cons_self)
      rw [lexedFrom_eq_ended, lexedFrom_eq_ended, List.length_cons, Nat.add_comm _ 1,
        ← Nat.add_assoc] at hlex
      generalize contentFrom o (w :: (ws ++ cs)) = l at hlex
      generalize contentFrom (o + 1) (ws ++ cs) = m at hlex
      obtain ⟨ts, f⟩ := l
      obtain ⟨ts', f'⟩ := m
      cases f <;> cases f' <;> simp_all [Lexed.ended]
    rw [List.cons_append, hblank,
      contentFrom_blanks (fun c hc => h c (List.mem_cons_of_mem w hc)) (o + 1) cs,
      List.length_cons, show o + 1 + ws.length = o + (ws.length + 1) by omega]

theorem contentFrom_allBlank {ws : List Char} (h : ∀ c ∈ ws, isBlank c = true) (o : Nat) :
    contentFrom o ws = ⟨[], none⟩ := by
  simpa using contentFrom_blanks h o []

/-! Cutting a text in two. -/

/-- The first part ends a line, or the second is blank. -/
def Seam (a b : List Char) : Prop :=
  (∀ c ∈ a.getLast?, c = '\n') ∨ ∀ c ∈ b, isBlank c = true

theorem Seam.of_append {p rest b : List Char} (h : Seam (p ++ rest) b) : Seam rest b := by
  rcases h with h | h
  · refine .inl fun c hc => h c ?_
    rw [List.getLast?_append, Option.mem_def.1 hc]
    rfl
  · exact .inr h

theorem Seam.blank {c : Char} {cs b : List Char} (h : Seam (c :: cs) b) (hn : '\n' ∉ c :: cs) :
    ∀ d ∈ b, isBlank d = true := by
  rcases h with h | h
  · have hlast := List.getLast?_eq_some_getLast (List.cons_ne_nil c cs)
    have hmem := List.getLast_mem (List.cons_ne_nil c cs)
    rw [h _ hlast] at hmem
    exact absurd hmem hn
  · exact h

theorem takeWhile_append_of_stop {cs : List Char} {p : Char → Bool} {d : Char} (hd : d ∈ cs)
    (hp : p d = false) (b : List Char) : (cs ++ b).takeWhile p = cs.takeWhile p := by
  have hlen : (cs.takeWhile p).length ≠ cs.length := by
    intro hlen
    have hall := List.takeWhile_eq_self_iff.1 ((List.takeWhile_prefix p).eq_of_length hlen) d hd
    rw [hp] at hall
    cases hall
  rw [List.takeWhile_append, if_neg hlen]

/-- A run of characters that no blank belongs to is the same run in the whole
text. -/
theorem takeWhile_seam {c : Char} {cs b : List Char} {p : Char → Bool} (h : Seam (c :: cs) b)
    (hp : ∀ d, isBlank d = true → p d = false) (hc : p c = true) :
    (cs ++ b).takeWhile p = cs.takeWhile p := by
  by_cases hall : ∀ d ∈ cs, p d = true
  · have hn : '\n' ∉ c :: cs := by
      intro hmem
      have hline : p '\n' = false := hp '\n' (by decide)
      rcases List.mem_cons.1 hmem with rfl | hmem
      · rw [hline] at hc
        cases hc
      · rw [hall '\n' hmem] at hline
        cases hline
    have hb := h.blank hn
    rw [List.takeWhile_append_of_pos hall, List.takeWhile_eq_self_iff.2 hall]
    cases b with
    | nil => simp
    | cons d ds => simp [hp d (hb d List.mem_cons_self)]
  · simp only [not_forall, Bool.not_eq_true] at hall
    obtain ⟨d, hd, hstop⟩ := hall
    exact takeWhile_append_of_stop hd hstop b

theorem literalRest_append_some (cs b : List Char) :
    ∀ r, literalRest cs = some r → literalRest (cs ++ b) = some r := by
  fun_induction literalRest cs with
  | case1 => intro r h; cases h
  | case2 cs =>
    intro r h
    cases h
    exact literalRest_quote (cs ++ b)
  | case3 => intro r h; cases h
  | case4 => intro r h; cases h
  | case5 d ds hd _ ih =>
    intro r h
    obtain ⟨r', hr', rfl⟩ := Option.map_eq_some_iff.1 h
    rw [List.cons_append, List.cons_append, literalRest_backslash _ hd, ih r' hr']
    rfl
  | case6 c cs hq hb ih =>
    intro r h
    obtain ⟨r', hr', rfl⟩ := Option.map_eq_some_iff.1 h
    rw [List.cons_append, literalRest_plain _ hq hb, ih r' hr']
    rfl

theorem literalRest_eq_none {b : List Char} (h : doubleQuote ∉ b) : literalRest b = none := by
  fun_induction literalRest b with
  | case1 => rfl
  | case2 cs => simp at h
  | case3 => rfl
  | case4 => rfl
  | case5 d ds hq hd ih =>
    simp only [List.mem_cons, not_or] at h
    rw [ih h.2.2]
    rfl
  | case6 c cs hq hb ih =>
    simp only [List.mem_cons, not_or] at h
    rw [ih h.2]
    rfl

theorem literalRest_append_none {cs b : List Char} (hb : doubleQuote ∉ b)
    (h : literalRest cs = none) : literalRest (cs ++ b) = none := by
  fun_induction literalRest cs with
  | case1 => exact literalRest_eq_none hb
  | case2 cs => cases h
  | case3 =>
    -- the backslash takes a character of the second part along
    cases b with
    | nil => rfl
    | cons d ds =>
      simp only [List.mem_cons, not_or] at hb
      by_cases hd : d = '\n'
      · rw [hd]
        rfl
      · rw [List.cons_append, List.nil_append, literalRest_backslash _ hd, literalRest_eq_none hb.2]
        rfl
  | case4 => rfl
  | case5 d ds hd _ ih =>
    rw [List.cons_append, List.cons_append, literalRest_backslash _ hd, ih (by simpa using h)]
    rfl
  | case6 c cs hq hs ih =>
    rw [List.cons_append, literalRest_plain _ hq hs, ih (by simpa using h)]
    rfl

theorem firstPiece_semicolon (cs : List Char) :
    firstPiece ';' cs = .ok ⟨.comment, ';' :: cs.takeWhile fun d => d ≠ '\n'⟩ := rfl

theorem firstPiece_doubleQuote (cs : List Char) :
    firstPiece doubleQuote cs =
      match literalRest cs with
      | some r => .ok ⟨.text, doubleQuote :: r⟩
      | none => .error (.unterminated 0) := rfl

/-- What starts neither a comment nor a literal is cut off at the same place. -/
theorem firstPiece_seam {c : Char} {cs b : List Char} (h : Seam (c :: cs) b)
    (hb : isBlank c = false) (hs : c ≠ ';') (hq : c ≠ doubleQuote) :
    firstPiece c (cs ++ b) = firstPiece c cs := by
  by_cases hd : isDelimiter c = true
  · have hc : c = '(' ∨ c = ')' ∨ c = singleQuote := by
      simpa [isDelimiter, hb, hs, hq, or_assoc] using hd
    rcases hc with rfl | rfl | rfl <;> rfl
  · have hp : ∀ d, isBlank d = true → (!isDelimiter d) = false := by
      intro d hd
      simp [isDelimiter, hd]
    have htake := takeWhile_seam h hp (by simpa using hd)
    simp only [firstPiece, htake, hb, hs, hq, Bool.false_eq_true, if_false]

theorem getElem?_illegalOffset {atom : List Char} (hne : atom ≠ []) (c : Char) :
    atom[illegalOffset atom]? = some (atom.getD (illegalOffset atom) c) := by
  have hlt : illegalOffset atom < atom.length := by
    simp only [illegalOffset]
    split
    · assumption
    · exact List.length_pos_iff.2 hne
  rw [List.getD_eq_getElem?_getD, List.getElem?_eq_getElem hlt]
  rfl

/-- A first piece cannot be cut off because a literal does not end, or because an
atom is of no kind; then a character of the atom is blamed. -/
theorem firstPiece_error {c : Char} {cs : List Char} {e : LexError}
    (h : firstPiece c cs = .error e) : isBlank c = false ∧ c ≠ ';' ∧
      ((c = doubleQuote ∧ literalRest cs = none ∧ e = .unterminated 0) ∨
        (c ≠ doubleQuote ∧ ∃ d i, e = .illegal d i ∧ (c :: cs)[i]? = some d ∧
          isDelimiter d = false)) := by
  unfold firstPiece at h
  split at h
  · cases h
  split at h
  · cases h
  split at h
  · cases h
  split at h
  · cases h
  split at h
  · cases h
  next hb hs ho hcl hsq =>
    simp only [Bool.not_eq_true] at hb
    refine ⟨hb, hs, ?_⟩
    split at h
    · next hq =>
      cases hr : literalRest cs with
      | some r => simp [hr] at h
      | none =>
        simp only [hr] at h
        exact .inl ⟨hq, rfl, (Except.error.inj h).symm⟩
    · next hq =>
      simp only at h
      generalize hatom : c :: cs.takeWhile (fun d => !isDelimiter d) = atom at h
      cases hk : atomKind? atom with
      | some k => simp [hk] at h
      | none =>
        simp only [hk] at h
        have hsplit : c :: cs = atom ++ cs.dropWhile fun d => !isDelimiter d := by
          rw [← hatom, List.cons_append, List.takeWhile_append_dropWhile]
        have hall : ∀ d ∈ atom, isDelimiter d = false := by
          intro d hd
          rw [← hatom] at hd
          rcases List.mem_cons.1 hd with rfl | hd
          · simp [isDelimiter, hb, hs, ho, hcl, hsq, hq]
          · simpa using List.all_eq_true.1 List.all_takeWhile d hd
        have hne : atom ≠ [] := by
          rw [← hatom]
          exact List.cons_ne_nil _ _
        have hat := getElem?_illegalOffset hne c
        refine .inr ⟨hq, _, _, (Except.error.inj h).symm, ?_, hall _ (List.mem_of_getElem? hat)⟩
        rw [hsplit, List.getElem?_append_left (List.getElem?_eq_some_iff.1 hat).1, hat]

/-- Where lexing stops: at the quote of a literal that does not end, or at a
character of an atom, which is no delimiter. -/
theorem failure_contentFrom (cs : List Char) : ∀ (o : Nat) (e : LexError),
    (contentFrom o cs).failure = some e → ∃ i c, cs[i]? = some c ∧
      ((e = .unterminated (o + i) ∧ c = doubleQuote) ∨
        (e = .illegal c (o + i) ∧ isDelimiter c = false)) := by
  induction cs using pieceInduction with
  | nil =>
    intro o e h
    cases h
  | error c cs e' hp =>
    intro o e h
    rw [contentFrom_error o hp] at h
    obtain rfl : e'.shift o = e := Option.some.inj h
    obtain ⟨-, -, ⟨rfl, -, rfl⟩ | ⟨-, d, i, rfl, hat, hd⟩⟩ := firstPiece_error hp
    · exact ⟨0, doubleQuote, rfl, .inl ⟨rfl, rfl⟩⟩
    · exact ⟨i, d, hat, .inr ⟨rfl, hd⟩⟩
  | piece c cs p rest hp hr hne ih =>
    intro o e h
    rw [contentFrom_piece o hp hr hne] at h
    obtain ⟨i, d, hat, hblame⟩ := ih _ e h
    refine ⟨p.raw.length + i, d, ?_, ?_⟩
    · rw [hr, List.getElem?_append_right (Nat.le_add_right _ _), Nat.add_sub_cancel_left, hat]
    · rwa [← Nat.add_assoc]

theorem contentFrom_comment {cs b : List Char} (o : Nat) (hcs : '\n' ∉ cs)
    (hb : ∀ c ∈ b, isBlank c = true) : contentFrom o (';' :: (cs ++ b)) = ⟨[], none⟩ := by
  have hp := firstPiece_semicolon (cs ++ b)
  have htake : ((cs ++ b).takeWhile fun d => d ≠ '\n') = cs ++ b.takeWhile fun d => d ≠ '\n' := by
    apply List.takeWhile_append_of_pos
    intro d hd
    simpa using fun h : d = '\n' => hcs (h ▸ hd)
  have hr : ';' :: (cs ++ b) = (';' :: (cs ++ b).takeWhile fun d => d ≠ '\n') ++
      b.dropWhile fun d => d ≠ '\n' := by
    rw [htake, List.cons_append, List.append_assoc, List.takeWhile_append_dropWhile]
  rw [contentFrom_piece o hp hr (List.cons_ne_nil _ _), contentFrom_allBlank]
  · rfl
  · exact fun c hc => hb c (List.dropWhile_sublist _ |>.mem hc)

theorem followedBy_cons (ts : List Token) (l m : Lexed) :
    Lexed.followedBy ⟨ts ++ l.tokens, l.failure⟩ m =
      ⟨ts ++ (l.followedBy m).tokens, (l.followedBy m).failure⟩ := by
  obtain ⟨ts', _ | e⟩ := l <;> simp [Lexed.followedBy]

theorem Lexed.followedBy_failure {l m : Lexed} (h : (l.followedBy m).failure = none) :
    l.failure = none ∧ m.failure = none ∧ l.followedBy m = ⟨l.tokens ++ m.tokens, none⟩ := by
  obtain ⟨ts, _ | e⟩ := l
  · obtain ⟨us, _ | e⟩ := m
    · exact ⟨rfl, rfl, rfl⟩
    · cases h
  · cases h

def LexError.isUnterminated : LexError → Bool
  | unterminated _ => true
  | illegal .. => false

@[simp] theorem LexError.isUnterminated_shift (e : LexError) (o : Nat) :
    (e.shift o).isUnterminated = e.isUnterminated := by
  cases e <;> rfl

/-! What becomes of the first piece when a second part follows. -/

theorem firstPiece_comment_append {cs : List Char} (hline : '\n' ∈ cs) (b : List Char) :
    firstPiece ';' (cs ++ b) = firstPiece ';' cs := by
  rw [firstPiece_semicolon, firstPiece_semicolon, takeWhile_append_of_stop hline (by simp) b]

theorem firstPiece_literal_append {cs : List Char} {p : Piece}
    (hp : firstPiece doubleQuote cs = .ok p) (b : List Char) :
    firstPiece doubleQuote (cs ++ b) = .ok p := by
  rw [firstPiece_doubleQuote] at hp
  cases hlit : literalRest cs with
  | none =>
    rw [hlit] at hp
    cases hp
  | some r => rw [← hp, firstPiece_doubleQuote, literalRest_append_some cs b r hlit, hlit]

/-- A first piece is found again in the whole text, unless it is of blanks, or a
comment that the first part does not end. -/
theorem firstPiece_ok_seam {c : Char} {cs b : List Char} {p : Piece} (h : Seam (c :: cs) b)
    (hp : firstPiece c cs = .ok p) (hb : isBlank c = false) (hline : c = ';' → '\n' ∈ cs) :
    firstPiece c (cs ++ b) = .ok p := by
  by_cases hs : c = ';'
  · subst hs
    exact (firstPiece_comment_append (hline rfl) b).trans hp
  by_cases hq : c = doubleQuote
  · subst hq
    exact firstPiece_literal_append hp b
  · exact (firstPiece_seam h hb hs hq).trans hp

/-- A first piece that cannot be cut off cannot be in the whole text, unless it is
a literal that the second part has a quote for. -/
theorem firstPiece_error_seam {c : Char} {cs b : List Char} {e : LexError} (h : Seam (c :: cs) b)
    (hp : firstPiece c cs = .error e) (hopen : doubleQuote ∉ b ∨ e.isUnterminated = false) :
    firstPiece c (cs ++ b) = .error e := by
  obtain ⟨hb, hs, ⟨rfl, hnone, rfl⟩ | ⟨hq, -⟩⟩ := firstPiece_error hp
  · have hquote : doubleQuote ∉ b := by
      rcases hopen with hquote | hends
      · exact hquote
      · cases hends
    rw [firstPiece_doubleQuote, literalRest_append_none hquote hnone]
  · exact (firstPiece_seam h hb hs hq).trans hp

theorem isBlank_of_mem_raw {c : Char} {cs : List Char} {p : Piece}
    (hp : firstPiece c cs = .ok p) (hb : isBlank c = true) : ∀ d ∈ p.raw, isBlank d = true := by
  have hblank : p = ⟨.blank, c :: cs.takeWhile isBlank⟩ := by
    simpa [firstPiece, hb] using hp.symm
  rw [hblank]
  intro d hd
  rcases List.mem_cons.1 hd with rfl | hd
  · exact hb
  · exact List.all_eq_true.1 List.all_takeWhile d hd

/-! The content of two parts. -/

/-- The content of two parts is the content of the first and then of the second. -/
def CutAt (o : Nat) (a b : List Char) : Prop :=
  contentFrom o (a ++ b) = (contentFrom o a).followedBy (contentFrom (o + a.length) b)

theorem cutAt_error {c : Char} {cs b : List Char} {e : LexError} (o : Nat)
    (hp : firstPiece c cs = .error e) (hp' : firstPiece c (cs ++ b) = .error e) :
    CutAt o (c :: cs) b := by
  rw [CutAt, List.cons_append, contentFrom_error o hp', contentFrom_error o hp]
  rfl

theorem contentFrom_piece_append {c : Char} {cs rest b : List Char} {p : Piece} (o : Nat)
    (hp : firstPiece c (cs ++ b) = .ok p) (hr : c :: cs = p.raw ++ rest) (hne : p.raw ≠ []) :
    contentFrom o (c :: (cs ++ b)) =
      ⟨(p.token? o).toList ++ (contentFrom (o + p.raw.length) (rest ++ b)).tokens,
        (contentFrom (o + p.raw.length) (rest ++ b)).failure⟩ := by
  have hr' : c :: (cs ++ b) = p.raw ++ (rest ++ b) := by
    rw [← List.cons_append, hr, List.append_assoc]
  exact contentFrom_piece o hp hr' hne

theorem cutAt_piece {c : Char} {cs rest b : List Char} {p : Piece} (o : Nat)
    (hp : firstPiece c cs = .ok p) (hp' : firstPiece c (cs ++ b) = .ok p)
    (hr : c :: cs = p.raw ++ rest) (hne : p.raw ≠ []) (hrest : CutAt (o + p.raw.length) rest b) :
    CutAt o (c :: cs) b := by
  have hlen : o + (c :: cs).length = o + p.raw.length + rest.length := by
    rw [hr, List.length_append, Nat.add_assoc]
  rw [CutAt] at hrest
  rw [CutAt, List.cons_append, contentFrom_piece_append o hp' hr hne, hrest,
    contentFrom_piece o hp hr hne, followedBy_cons, hlen]

/-- Blanks of both parts may be one piece of the whole. -/
theorem cutAt_blanks {ws rest b : List Char} (o : Nat) (hws : ∀ c ∈ ws, isBlank c = true)
    (hrest : CutAt (o + ws.length) rest b) : CutAt o (ws ++ rest) b := by
  rw [CutAt] at hrest
  rw [CutAt, List.append_assoc, contentFrom_blanks hws, contentFrom_blanks hws, hrest,
    List.length_append, Nat.add_assoc]

/-- A comment that runs to the end of the first part takes blanks of the second
along. -/
theorem cutAt_comment {cs b : List Char} (o : Nat) (hcs : '\n' ∉ cs)
    (hb : ∀ c ∈ b, isBlank c = true) : CutAt o (';' :: cs) b := by
  have hfirst := contentFrom_comment (b := []) o hcs (by simp)
  rw [List.append_nil] at hfirst
  rw [CutAt, List.cons_append, contentFrom_comment o hcs hb, hfirst, contentFrom_allBlank hb]
  rfl

/-- The content of two parts is the content of the first and then of the second,
unless a literal of the first goes on in the second. -/
theorem contentFrom_append {b : List Char} (a : List Char) :
    Seam a b → ∀ o,
      (doubleQuote ∉ b ∨ (contentFrom o a).failure.any LexError.isUnterminated = false) →
      contentFrom o (a ++ b) = (contentFrom o a).followedBy (contentFrom (o + a.length) b) := by
  induction a using pieceInduction with
  | nil =>
    intro _ o _
    rfl
  | error c cs e hp =>
    intro hseam o hopen
    rw [contentFrom_error o hp, Option.any_some, LexError.isUnterminated_shift] at hopen
    exact cutAt_error o hp (firstPiece_error_seam hseam hp hopen)
  | piece c cs p rest hp hr hne ih =>
    intro hseam o hopen
    rw [contentFrom_piece o hp hr hne] at hopen
    have hrest : CutAt (o + p.raw.length) rest b := ih (hr ▸ hseam).of_append _ hopen
    by_cases hb : isBlank c = true
    · have hblanks := cutAt_blanks o (isBlank_of_mem_raw hp hb) hrest
      rwa [← hr] at hblanks
    by_cases hline : c = ';' → '\n' ∈ cs
    · have hp' := firstPiece_ok_seam hseam hp (by simpa using hb) hline
      exact cutAt_piece o hp hp' hr hne hrest
    · obtain ⟨rfl, hcs⟩ := Classical.not_imp.1 hline
      exact cutAt_comment o hcs (hseam.blank (by simpa using hcs))

/-! What lexing gives, offsets apart. -/

def Token.word (t : Token) : TokenKind × String := (t.kind, t.text)

/-- The tokens without their places, and the error, if there is one, only by
whether a literal does not end. -/
def Lexed.outline (l : Lexed) : List (TokenKind × String) × Option Bool :=
  (l.tokens.map Token.word, l.failure.map LexError.isUnterminated)

theorem word_token? (o o' : Nat) (p : Piece) :
    (p.token? o).map Token.word = (p.token? o').map Token.word := by
  unfold Piece.token?
  cases p.kind with
  | symbol =>
    simp only
    split
    · rfl
    split <;> rfl
  | _ => rfl

theorem outline_contentFrom (cs : List Char) :
    ∀ o o', (contentFrom o cs).outline = (contentFrom o' cs).outline := by
  induction cs using pieceInduction with
  | nil =>
    intro o o'
    rfl
  | error c cs e hp =>
    intro o o'
    rw [contentFrom_error o hp, contentFrom_error o' hp]
    cases e <;> rfl
  | piece c cs p rest hp hr hne ih =>
    intro o o'
    have hrest := ih (o + p.raw.length) (o' + p.raw.length)
    have hword := word_token? o o' p
    simp only [Lexed.outline, Prod.mk.injEq] at hrest
    rw [contentFrom_piece o hp hr hne, contentFrom_piece o' hp hr hne]
    simp only [Lexed.outline, List.map_append, hrest]
    rw [← Option.toList_map, hword, Option.toList_map]

theorem outline_trim (o o' : Nat) (cs : List Char) :
    (contentFrom o (trim cs)).outline = (contentFrom o' cs).outline := by
  let y := cs.dropWhile isBlank
  let w := (y.reverse.takeWhile isBlank).reverse
  have hy : cs = cs.takeWhile isBlank ++ y := List.takeWhile_append_dropWhile.symm
  have hw : y = trim cs ++ w := by
    have h := congrArg List.reverse
      (List.takeWhile_append_dropWhile (p := isBlank) (l := y.reverse))
    rw [List.reverse_append, List.reverse_reverse] at h
    exact h.symm
  have hblank : ∀ c ∈ w, isBlank c = true := by
    intro c hc
    exact List.all_eq_true.1 List.all_takeWhile c (List.mem_reverse.1 hc)
  have hquote : doubleQuote ∉ w := fun h => absurd (hblank _ h) (by decide)
  have hback : ∀ n, contentFrom n y = contentFrom n (trim cs) := by
    intro n
    rw [hw, contentFrom_append _ (.inr hblank) n (.inl hquote), contentFrom_allBlank hblank]
    obtain ⟨ts, _ | e⟩ := contentFrom n (trim cs) <;> simp [Lexed.followedBy]
  have hfront : ∀ c ∈ cs.takeWhile isBlank, isBlank c = true :=
    fun c hc => List.all_eq_true.1 List.all_takeWhile c hc
  rw [hy, contentFrom_blanks hfront, hback, ← hy]
  exact outline_contentFrom _ _ _

end Formulary
