import Formulary.Proofs.Lexing
import Formulary.Proofs.Numeral
import Formulary.Value.Print

/-
  The readable form of a value reads back as that value.

  `ReadsAs cs v` says that the reader, whatever is open and whatever delimiter
  comes next, takes the text `cs` for the value `v` and goes on after it. It
  holds of the literals of every kind of atom, and of a list when it holds of
  its items. That the shortest decimal of a double converts back to it is the
  one fact about doubles that is taken for granted (`Value.floats`).
-/

namespace Formulary

open Text

/-! The text of a literal, and what it denotes. -/

theorem escapeChar_cases (c : Char) :
    (Value.escapeChar c = [c] ∧ c ≠ doubleQuote ∧ c ≠ backslash) ∨
    ∃ d, Value.escapeChar c = [backslash, d] ∧ d ≠ '\n' ∧ unescapeChar d = c := by
  unfold Value.escapeChar
  split
  · next h => exact .inr ⟨backslash, rfl, by decide, by rw [h]; decide⟩
  split
  · next h => exact .inr ⟨doubleQuote, rfl, by decide, by rw [h]; decide⟩
  split
  · next h => exact .inr ⟨'n', rfl, by decide, by rw [h]; decide⟩
  split
  · next h => exact .inr ⟨'t', rfl, by decide, by rw [h]; decide⟩
  split
  · next h => exact .inr ⟨'r', rfl, by decide, by rw [h]; decide⟩
  · next hb hq _ _ _ => exact .inl ⟨rfl, hq, hb⟩

/-- The quote that ends a literal is the first that is not escaped. -/
theorem literalRest_escaped (s rest : List Char) :
    literalRest (s.flatMap Value.escapeChar ++ doubleQuote :: rest) =
      some (s.flatMap Value.escapeChar ++ [doubleQuote]) := by
  induction s with
  | nil => exact literalRest_quote rest
  | cons c s ih =>
    rw [List.flatMap_cons]
    rcases escapeChar_cases c with ⟨h, hq, hb⟩ | ⟨d, h, hd, _⟩
    · rw [h]
      simp only [List.cons_append, List.nil_append]
      rw [literalRest_plain _ hq hb, ih]
      rfl
    · rw [h]
      simp only [List.cons_append, List.nil_append]
      rw [literalRest_backslash _ hd, ih]
      rfl

theorem unescape_backslash (d : Char) (ds : List Char) :
    unescape (backslash :: d :: ds) = unescapeChar d :: unescape ds := by
  rw [unescape.eq_def]
  simp

theorem unescape_plain {c : Char} (cs : List Char) (hb : c ≠ backslash) :
    unescape (c :: cs) = c :: unescape cs := by
  rw [unescape.eq_def]
  simp [hb]

theorem unescape_escaped (s : List Char) : unescape (s.flatMap Value.escapeChar) = s := by
  induction s with
  | nil => rfl
  | cons c s ih =>
    rw [List.flatMap_cons]
    rcases escapeChar_cases c with ⟨h, _, hb⟩ | ⟨d, h, _, hd⟩
    · rw [h, List.cons_append, List.nil_append, unescape_plain _ hb, ih]
    · rw [h, List.cons_append, List.cons_append, List.nil_append, unescape_backslash, hd, ih]

/-! Reading a text that is lexed as it goes. -/

/-- Reads on, inside of what is open, in a text that starts at an offset. -/
def readFrom (opened : List Opened) (o : Nat) (cs : List Char) :
    Except ReadError (Option Value) × TokenStream :=
  TokenStream.formFrom none (lexedFrom o cs).failure opened (lexedFrom o cs).tokens

def resume : Progress → Nat → List Char → Except ReadError (Option Value) × TokenStream
  | .complete v, o, cs => (.ok (some v), lexedFrom o cs)
  | .inside opened, o, cs => readFrom opened o cs

theorem resume_inside (opened : List Opened) (o : Nat) (cs : List Char) :
    resume (.inside opened) o cs = readFrom opened o cs := rfl

/-- The text is taken for the value, whatever is open and whatever delimiter
follows. -/
def ReadsAs (cs : List Char) (v : Value) : Prop :=
  ∀ (opened : List Opened) (o : Nat) (rest : List Char), Delimited rest →
    readFrom opened o (cs ++ rest) = resume (close opened v) (o + cs.length) rest

theorem readFrom_piece {c : Char} {cs rest : List Char} {p : Piece} {t : Token}
    {progress : Progress} (opened : List Opened) (o : Nat)
    (hp : firstPiece c cs = .ok p) (hr : c :: cs = p.raw ++ rest) (hne : p.raw ≠ [])
    (ht : p.token? o = some t) (hk : t.kind ≠ .eof)
    (hread : readToken none opened t = .ok progress) :
    readFrom opened o (c :: cs) = resume progress (o + p.raw.length) rest := by
  unfold readFrom
  rw [lexedFrom_piece o hp hr hne]
  simp only [ht, Option.toList_some, List.cons_append, List.nil_append]
  rw [TokenStream.formFrom, if_neg hk, hread]
  cases progress with
  | complete v => rfl
  | inside opened => rfl

theorem readToken_atom {t : Token} {v : Value} (opened : List Opened) (h : readAtom t = .ok v) :
    t.kind ≠ .eof ∧ readToken none opened t = .ok (close opened v) := by
  cases hk : t.kind <;> simp [readAtom, hk] at h <;>
    simp [readToken, readAtom, hk, h, Except.map]

/-- A run of characters that are no delimiters reads as what its token denotes. -/
theorem readsAs_atom {c : Char} {cs : List Char} {k : PieceKind} {v : Value}
    (hcs : ∀ d ∈ c :: cs, isDelimiter d = false) (hk : atomKind? (c :: cs) = some k)
    (ht : ∀ o, ∃ t, Piece.token? o ⟨k, c :: cs⟩ = some t ∧ readAtom t = .ok v) :
    ReadsAs (c :: cs) v := by
  intro opened o rest hrest
  obtain ⟨t, ht, hv⟩ := ht o
  obtain ⟨hne, hread⟩ := readToken_atom opened hv
  have hp : firstPiece c (cs ++ rest) = .ok ⟨k, c :: cs⟩ := firstPiece_atom hcs hrest hk
  exact readFrom_piece opened o hp rfl (List.cons_ne_nil c cs) ht hne hread

/-! The literals of the atoms. -/

theorem readsAs_str (s : String) : ReadsAs (Value.literal s) (.str s) := by
  intro opened o rest _
  let body := s.toList.flatMap Value.escapeChar
  have hp : firstPiece doubleQuote (body ++ doubleQuote :: rest) =
      .ok ⟨.text, doubleQuote :: (body ++ [doubleQuote])⟩ := by
    have hb : isBlank doubleQuote = false := by decide
    have hs : doubleQuote ≠ ';' ∧ doubleQuote ≠ '(' ∧ doubleQuote ≠ ')' ∧
        doubleQuote ≠ singleQuote := by decide
    simp [firstPiece, hb, hs, body, literalRest_escaped]
  have ht : Piece.token? o ⟨.text, doubleQuote :: (body ++ [doubleQuote])⟩ =
      some ⟨.text, s, o⟩ := by
    simp [Piece.token?, body, unescape_escaped]
  obtain ⟨hk, hread⟩ := readToken_atom opened (t := ⟨.text, s, o⟩) (v := .str s) rfl
  have htext : Value.literal s ++ rest = doubleQuote :: (body ++ doubleQuote :: rest) := by
    simp [Value.literal, body]
  have hlen : (Value.literal s).length = (doubleQuote :: (body ++ [doubleQuote])).length := by
    simp [Value.literal, body]
  rw [htext, hlen]
  exact readFrom_piece opened o hp (by simp) (List.cons_ne_nil _ _) ht hk hread

theorem readsAs_bool (b : Bool) : ReadsAs ['#', if b then 't' else 'f'] (.bool b) := by
  cases b with
  | true =>
    exact readsAs_atom (k := .boolean) (isDelimiter_of_all (by decide)) (by decide)
      fun o => ⟨⟨.boolean, "#t", o⟩, rfl, rfl⟩
  | false =>
    exact readsAs_atom (k := .boolean) (isDelimiter_of_all (by decide)) (by decide)
      fun o => ⟨⟨.boolean, "#f", o⟩, rfl, rfl⟩

theorem readsAs_nil : ReadsAs ['n', 'i', 'l'] .nil :=
  readsAs_atom (k := .symbol) (isDelimiter_of_all (by decide)) (by decide)
    fun o => ⟨⟨.symbol, "nil", o⟩, rfl, rfl⟩

theorem isTagChar_of_isTag {tag : List Char} (h : isTag tag = true) : ∀ c ∈ tag, isTagChar c = true := by
  cases tag with
  | nil => simp [isTag] at h
  | cons c cs =>
    simp only [isTag, Bool.and_eq_true, List.all_eq_true] at h
    intro d hd
    rcases List.mem_cons.mp hd with rfl | hd
    · simp [isTagChar, h.1]
    · exact h.2 d hd

theorem isDelimiter_of_isTagChar {c : Char} (h : isTagChar c = true) : isDelimiter c = false := by
  simp only [isTagChar, Bool.or_eq_true, decide_eq_true_eq] at h
  rcases h with (h | h) | rfl
  · exact isDelimiter_of_isSymbolChar (by simp [isSymbolChar, h])
  · exact isDelimiter_of_isAsciiDigit h
  · decide

theorem readsAs_elem {tag : String} (h : isTag tag.toList = true) :
    ReadsAs (':' :: tag.toList) (.elem tag) := by
  refine readsAs_atom (k := .element) ?_ ?_ fun o => ⟨⟨.element, tag, o⟩, ?_, rfl⟩
  · intro d hd
    rcases List.mem_cons.mp hd with rfl | hd
    · decide
    · exact isDelimiter_of_isTagChar (isTagChar_of_isTag h d hd)
  · simp [atomKind?, isElementAtom, h]
  · simp [Piece.token?]

theorem token?_number {cs : List Char} (o : Nat) :
    Piece.token? o ⟨.number, cs⟩ =
      some ⟨if cs.contains '.' then .float else .integer, String.ofList cs, o⟩ := rfl

theorem readsAs_int {n : Int} (h : inInt64 n = true) : ReadsAs (intChars n) (.int n) := by
  cases n with
  | ofNat n =>
    have hdigit : ∀ c ∈ Nat.toDigits 10 n, isAsciiDigit c = true :=
      fun c => isAsciiDigit_of_mem_toDigits
    have hpoint : (Nat.toDigits 10 n).contains '.' = false := by
      simpa using fun hc => absurd (hdigit '.' hc) (by decide)
    have hread := readInteger_nonneg h
    show ReadsAs (Nat.toDigits 10 n) (.int n)
    cases hd : Nat.toDigits 10 n with
    | nil => exact absurd hd Nat.toDigits_ne_nil
    | cons c cs =>
      rw [hd] at hdigit hpoint hread
      refine readsAs_atom (fun d hd => isDelimiter_of_isAsciiDigit (hdigit d hd))
        (atomKind?_number (startsNumber_digit cs (hdigit c List.mem_cons_self))) fun o => ?_
      refine ⟨⟨.integer, String.ofList (c :: cs), o⟩, by rw [token?_number, hpoint]; rfl, ?_⟩
      exact hread o
  | negSucc n =>
    have hdigit : ∀ c ∈ Nat.toDigits 10 (n + 1), isAsciiDigit c = true :=
      fun c => isAsciiDigit_of_mem_toDigits
    have hpoint : ('-' :: Nat.toDigits 10 (n + 1)).contains '.' = false := by
      simpa using fun hc => absurd (hdigit '.' hc) (by decide)
    -- a minus sign starts a number only before a digit
    have hstart : startsNumber ('-' :: Nat.toDigits 10 (n + 1)) = true := by
      cases hd : Nat.toDigits 10 (n + 1) with
      | nil => exact absurd hd Nat.toDigits_ne_nil
      | cons c cs => exact hdigit c (by simp [hd])
    refine readsAs_atom ?_ (atomKind?_number hstart) fun o => ?_
    · intro d hd
      rcases List.mem_cons.mp hd with rfl | hd
      · decide
      · exact isDelimiter_of_isAsciiDigit (hdigit d hd)
    · refine ⟨⟨.integer, String.ofList ('-' :: Nat.toDigits 10 (n + 1)), o⟩,
        by rw [token?_number, hpoint]; rfl, ?_⟩
      exact readInteger_neg h o

theorem startsNumber_positional {cs : List Char} (h : IsPositional cs) :
    startsNumber cs = true ∧ startsNumber ('-' :: cs) = true := by
  obtain ⟨c, whole, part, rfl, hc, _, _⟩ := h
  exact ⟨startsNumber_digit _ hc, hc⟩

theorem positional_chars {cs : List Char} (h : IsPositional cs) :
    '.' ∈ cs ∧ ∀ d ∈ cs, isDelimiter d = false := by
  obtain ⟨c, whole, part, rfl, hc, hwhole, hpart⟩ := h
  refine ⟨by simp, fun d hd => ?_⟩
  rcases List.mem_append.mp hd with hd | hd
  · rcases List.mem_cons.mp hd with rfl | hd
    · exact isDelimiter_of_isAsciiDigit hc
    · exact isDelimiter_of_isAsciiDigit (hwhole d hd)
  · rcases List.mem_cons.mp hd with rfl | hd
    · decide
    · exact isDelimiter_of_isAsciiDigit (hpart d hd)

theorem readsAs_point {cs : List Char} {x : Float} (hstart : startsNumber cs = true)
    (hpoint : '.' ∈ cs) (hcs : ∀ d ∈ cs, isDelimiter d = false)
    (hx : floatOfText? cs = some x) (hinf : x.isInf = false) : ReadsAs cs (.float x) := by
  cases cs with
  | nil => cases hpoint
  | cons c cs =>
    refine readsAs_atom hcs (atomKind?_number hstart) fun o => ?_
    refine ⟨⟨.float, String.ofList (c :: cs), o⟩, ?_, ?_⟩
    · rw [token?_number, List.contains_iff_mem.mpr hpoint]
      rfl
    · simp [readAtom, readFloat, hx, hinf]

theorem readsAs_float {x : Float} (hfin : x.isFinite = true)
    (hx : floatOfText? (plainFloat x).toList = some x) :
    ReadsAs (plainFloat x).toList (.float x) := by
  obtain ⟨cs, hcs, htext⟩ := plainFloat_cases hfin
  obtain ⟨hstart, hstart'⟩ := startsNumber_positional hcs
  obtain ⟨hpoint, hdelim⟩ := positional_chars hcs
  have hinf := isInf_of_isFinite hfin
  rcases htext with htext | htext
  · rw [htext] at hx ⊢
    exact readsAs_point hstart hpoint hdelim hx hinf
  · rw [htext] at hx ⊢
    refine readsAs_point hstart' (List.mem_cons_of_mem _ hpoint) ?_ hx hinf
    intro d hd
    rcases List.mem_cons.mp hd with rfl | hd
    · decide
    · exact hdelim d hd

/-- Whether the lexer takes the text for one symbol. -/
def isSymbolText (name : String) : Bool :=
  lex name = ⟨[⟨.symbol, name, 0⟩, ⟨.eof, "", name.toList.length⟩], none⟩

theorem atom_of_isSymbolText {name : String} (h : isSymbolText name = true) :
    ∃ c cs, name.toList = c :: cs ∧ (∀ d ∈ c :: cs, isDelimiter d = false) ∧
      atomKind? (c :: cs) = some .symbol ∧ name ≠ "true" ∧ name ≠ "false" := by
  simp only [isSymbolText, decide_eq_true_eq, lex, lexChars_eq_lexedFrom] at h
  cases hname : name.toList with
  | nil => simp [hname] at h
  | cons c cs =>
    rw [hname] at h
    cases hp : firstPiece c cs with
    | error e => simp [lexedFrom, piecesFrom_zero, hp] at h
    | ok p =>
      obtain ⟨rest, hr, hne⟩ := firstPiece_raw hp
      rw [lexedFrom_piece 0 hp hr hne] at h
      cases ht : p.token? 0 with
      | none =>
        -- a piece without a token would put the first token behind it
        simp only [ht, Option.toList_none, List.nil_append, Lexed.mk.injEq] at h
        have hmem : (⟨.symbol, name, 0⟩ : Token) ∈ (lexedFrom (0 + p.raw.length) rest).tokens := by
          rw [h.1]
          exact List.mem_cons_self
        have hle := le_offset_of_mem_lexedFrom hmem
        have hpos := List.length_pos_iff.mpr hne
        simp only at hle
        omega
      | some t =>
        simp only [ht, Option.toList_some, List.cons_append, Lexed.mk.injEq, List.cons.injEq] at h
        obtain ⟨⟨rfl, -⟩, -⟩ := h
        obtain ⟨hk, hraw, hwords⟩ := token?_eq_symbol (o := 0) ht
        rcases firstPiece_cases hp with ⟨-, rfl⟩ | ⟨-, rfl⟩ | ⟨-, rfl⟩ | ⟨-, rfl⟩ | ⟨-, rfl⟩ |
          ⟨-, r, hr, rfl⟩ | ⟨hc, k, hkind, rfl⟩
        case inr.inr.inr.inr.inr.inr =>
          -- the atom is the whole name, so it stops at no delimiter
          simp only at hk hraw
          rw [hname] at hraw
          rw [hraw, hk] at hkind
          refine ⟨c, cs, rfl, ?_, hkind, hwords⟩
          intro d hd
          rw [← hraw] at hd
          rcases List.mem_cons.mp hd with rfl | hd
          · exact hc
          · simpa using List.all_eq_true.mp List.all_takeWhile d hd
        all_goals simp at hk

theorem readsAs_sym {name : String} (h : isSymbolText name = true) (hnil : name ≠ "nil") :
    ReadsAs name.toList (.sym name) := by
  obtain ⟨c, cs, hname, hcs, hk, htrue, hfalse⟩ := atom_of_isSymbolText h
  rw [hname]
  refine readsAs_atom hcs hk fun o => ⟨⟨.symbol, name, o⟩, ?_, ?_⟩
  · simp [Piece.token?, ← hname, htrue, hfalse]
  · simp [readAtom, hnil]

/-! Values. -/

namespace Value

mutual

/-- Whether a value is made of what can be written: integers of 64 bits, finite
doubles, texts, booleans, `nil`, symbols that lex as one symbol other than
`nil`, elements with a proper tag, and lists of such values. -/
def isWritable : Value → Bool
  | int n => inInt64 n
  | float x => x.isFinite
  | str _ | bool _ | nil => true
  | sym name => isSymbolText name && name != "nil"
  | elem tag => isTag tag.toList
  | list items => areWritable items

def areWritable : List Value → Bool
  | [] => true
  | v :: vs => isWritable v && areWritable vs

end

mutual

def floats : Value → List Float
  | float x => [x]
  | list items => itemFloats items
  | _ => []

def itemFloats : List Value → List Float
  | [] => []
  | v :: vs => floats v ++ itemFloats vs

end

end Value

theorem readFrom_opening (opened : List Opened) (o : Nat) (rest : List Char) :
    readFrom opened o ('(' :: rest) = readFrom (.list o [] :: opened) (o + 1) rest :=
  readFrom_piece opened o (p := ⟨.opening, ['(']⟩) rfl rfl (List.cons_ne_nil _ _) rfl
    (by simp) rfl

theorem readFrom_closing (opened : List Opened) (offset : Int) (items : List Value) (o : Nat)
    (rest : List Char) :
    readFrom (.list offset items :: opened) o (')' :: rest) =
      resume (close opened (.list items.reverse)) (o + 1) rest :=
  readFrom_piece _ o (p := ⟨.closing, [')']⟩) rfl rfl (List.cons_ne_nil _ _) rfl (by simp) rfl

theorem readFrom_space (opened : List Opened) (o : Nat) (rest : List Char) :
    readFrom opened o (' ' :: rest) = readFrom opened (o + 1) rest := by
  unfold readFrom
  rw [lexedFrom_blank o rest (by decide)]

mutual

/-- The readable form of a value is taken for that value. -/
theorem readsAs_chars : ∀ (v : Value), v.isWritable = true →
    (∀ x ∈ v.floats, floatOfText? (plainFloat x).toList = some x) → ReadsAs (v.chars true) v
  | .int _, h, _ => readsAs_int h
  | .float x, h, host => readsAs_float h (host x (by simp [Value.floats]))
  | .str s, _, _ => readsAs_str s
  | .bool b, _, _ => readsAs_bool b
  | .nil, _, _ => readsAs_nil
  | .sym name, h, _ => by
    simp only [Value.isWritable, Bool.and_eq_true, bne_iff_ne] at h
    exact readsAs_sym h.1 h.2
  | .elem _, h, _ => readsAs_elem h
  | .list items, h, host => by
    intro opened o rest hrest
    have htext : Value.chars true (.list items) ++ rest =
        '(' :: (Value.itemChars true items ++ ')' :: rest) := by
      simp [Value.chars]
    rw [htext, readFrom_opening, readFrom_items items h host opened o [] (o + 1) rest]
    congr 1
    simp only [Value.chars, List.length_cons, List.length_append, List.length_nil]
    omega

theorem readFrom_items : ∀ (items : List Value), Value.areWritable items = true →
    (∀ x ∈ Value.itemFloats items, floatOfText? (plainFloat x).toList = some x) →
    ∀ (opened : List Opened) (offset : Int) (read : List Value) (o : Nat) (rest : List Char),
      readFrom (.list offset read :: opened) o (Value.itemChars true items ++ ')' :: rest) =
        resume (close opened (.list (read.reverse ++ items)))
          (o + (Value.itemChars true items).length + 1) rest
  | [], _, _ => by
    intro opened offset read o rest
    simpa [Value.itemChars] using readFrom_closing opened offset read o rest
  | [v], h, host => by
    intro opened offset read o rest
    simp only [Value.areWritable, Bool.and_true] at h
    have hv := readsAs_chars v h (fun x hx => host x (by simp [Value.itemFloats, hx]))
    have hclose : Delimited (')' :: rest) := delimited_cons rest (by decide)
    simp only [Value.itemChars]
    rw [hv _ o _ hclose, close, resume_inside, readFrom_closing, List.reverse_cons]
  | v :: w :: vs, h, host => by
    intro opened offset read o rest
    simp only [Value.areWritable, Bool.and_eq_true] at h
    have hv := readsAs_chars v h.1 (fun x hx => host x (by simp [Value.itemFloats, hx]))
    have hvs := readFrom_items (w :: vs) (by simp [Value.areWritable, h.2])
      (fun x hx => host x (by rw [Value.itemFloats]; exact List.mem_append_right _ hx))
    -- the value ends at the space, and the other items are read after it
    have hspace : Delimited (' ' :: (Value.itemChars true (w :: vs) ++ ')' :: rest)) :=
      delimited_cons _ (by decide)
    simp only [Value.itemChars, List.append_assoc, List.cons_append]
    rw [hv _ o _ hspace, close, resume_inside, readFrom_space, hvs opened offset (v :: read)]
    simp only [List.reverse_cons, List.append_assoc, List.cons_append, List.nil_append,
      List.length_append, List.length_cons]
    congr 1
    omega

end

/-- Reading the readable form of a value gives the value back, if its doubles
convert back from their shortest decimals. -/
theorem readOne_readable (v : Value) (h : v.isWritable = true)
    (host : ∀ x ∈ v.floats, floatOfText? (plainFloat x).toList = some x) :
    readOne v.readable = .ok v := by
  have hread := readsAs_chars v h host [] 0 [] delimited_nil
  rw [List.append_nil] at hread
  simp only [readFrom, close, resume] at hread
  have hlex : TokenStream.ofSource v.readable = lexedFrom 0 (v.chars true) := by
    simp [TokenStream.ofSource, lex, lexChars_eq_lexedFrom, Value.readable]
  simp only [readOne, TokenStream.form, hlex, hread, lexedFrom_nil, TokenStream.peek]
  rfl

/-- Every kind of value at once, with the characters that a text has to escape. -/
def writableSample : Value :=
  .list [.sym "quote", .list [.int int64Min, .float (-0.1), .float 2.5, .bool false, .nil],
    .str "a\"b\\;(\n\t\r", .elem "Fe", .list []]

theorem readOne_readable_sample : readOne writableSample.readable = .ok writableSample := by
  refine readOne_readable writableSample (by decide +kernel) ?_
  intro x hx
  have hx : x = -0.1 ∨ x = 2.5 := by
    simpa [writableSample, Value.floats, Value.itemFloats] using hx
  rcases hx with rfl | rfl
  · decide +kernel
  · decide +kernel

end Formulary
