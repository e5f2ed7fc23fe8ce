import Formulary.Discovery.Workflow
import Formulary.Proofs.Nesting
import Formulary.Proofs.RoundTrip

/-
  What a workflow writes is read as one form.

  A list may be written with any blanks between its items (`readsAs_spaced`), so
  each call that a step is written as, the definitions around them and the
  block of all definitions read as the forms they stand for, whatever text a
  step brings along (`readAll_program`).
-/

namespace Formulary

open Text

/-! Lists with blanks between the items. -/

theorem readFrom_blanks (opened : List Opened) {ws : List Char} (hws : ∀ c ∈ ws, isBlank c = true) :
    ∀ (o : Nat) (rest : List Char), readFrom opened o (ws ++ rest) =
      readFrom opened (o + ws.length) rest := by
  induction ws with
  | nil =>
    intro o rest
    rfl
  | cons w ws ih =>
    intro o rest
    have hblank : readFrom opened o (w :: (ws ++ rest)) = readFrom opened (o + 1) (ws ++ rest) := by
      unfold readFrom
      rw [lexedFrom_blank o _ (hws w List.mem_cons_self)]
    rw [List.cons_append, hblank, ih (fun c hc => hws c (List.mem_cons_of_mem w hc)),
      List.length_cons, Nat.add_assoc, Nat.add_comm 1]

/-- The texts of some items, each with the gap before it. -/
def spaced (gap : List Char) (items : List (List Char × Value)) : List Char :=
  items.flatMap fun p => gap ++ p.1

section

variable {gap : List Char} (hne : gap ≠ []) (hblank : ∀ c ∈ gap, isBlank c = true)

include hne hblank

theorem delimited_spaced (items : List (List Char × Value)) (rest : List Char) :
    Delimited (spaced gap items ++ ')' :: rest) := by
  cases items with
  | nil => exact delimited_cons rest (by decide)
  | cons p items =>
    obtain ⟨g, gs, rfl⟩ := List.exists_cons_of_ne_nil hne
    refine delimited_cons _ ?_
    simp [isDelimiter, hblank g List.mem_cons_self]

theorem readFrom_spaced (opened : List Opened) (offset : Int) :
    ∀ (items : List (List Char × Value)), (∀ p ∈ items, ReadsAs p.1 p.2) →
      ∀ (read : List Value) (o : Nat) (rest : List Char),
        readFrom (.list offset read :: opened) o (spaced gap items ++ ')' :: rest) =
          resume (close opened (.list (read.reverse ++ items.map Prod.snd)))
            (o + (spaced gap items).length + 1) rest
  | [], _, read, o, rest => by
    simpa [spaced] using readFrom_closing opened offset read o rest
  | p :: items, hitems, read, o, rest => by
    have hp := hitems p List.mem_cons_self
    have htail := readFrom_spaced opened offset items
      fun q hq => hitems q (List.mem_cons_of_mem p hq)
    have htext : spaced gap (p :: items) ++ ')' :: rest =
        gap ++ (p.1 ++ (spaced gap items ++ ')' :: rest)) := by
      simp [spaced]
    rw [htext, readFrom_blanks _ hblank, hp _ _ _ (delimited_spaced hne hblank items rest), close,
      resume_inside, htail]
    simp only [List.reverse_cons, List.append_assoc, List.map_cons, List.singleton_append, spaced,
      List.flatMap_cons, List.length_append]
    congr 1
    omega

/-- A list of items with gaps before all but the first. -/
theorem readsAs_spaced {head : List Char} {v : Value} (hv : ReadsAs head v)
    {items : List (List Char × Value)} (hitems : ∀ p ∈ items, ReadsAs p.1 p.2) :
    ReadsAs ('(' :: (head ++ spaced gap items ++ [')'])) (.list (v :: items.map Prod.snd)) := by
  intro opened o rest _
  have htext : '(' :: (head ++ spaced gap items ++ [')']) ++ rest =
      '(' :: (head ++ (spaced gap items ++ ')' :: rest)) := by
    simp
  rw [htext, readFrom_opening, hv _ _ _ (delimited_spaced hne hblank items rest), close,
    resume_inside, readFrom_spaced hne hblank opened o items hitems]
  simp only [List.reverse_cons, List.reverse_nil, List.nil_append, List.singleton_append,
    List.length_cons, List.length_append, List.length_nil]
  congr 1
  omega

end

/-! From one form to a text. -/

theorem formsFrom_of_formFrom {limit : Option Nat} {failure : Option LexError} {v : Value}
    {s : TokenStream} : ∀ (ts : List Token) (opened : List Opened) (read : List Value),
      TokenStream.formFrom limit failure opened ts = (.ok (some v), s) →
      TokenStream.formsFrom limit failure opened read ts =
        TokenStream.formsFrom limit s.failure [] (v :: read) s.tokens
  | [], opened, read, h => by
    cases failure with
    | some e => cases h
    | none => cases hend : checkEnd opened <;> simp [TokenStream.formFrom, hend, Except.map] at h
  | t :: ts, opened, read, h => by
    rw [TokenStream.formFrom] at h
    rw [TokenStream.formsFrom]
    split at h
    · cases hend : checkEnd opened <;> simp [hend, Except.map] at h
    · next hk =>
      rw [if_neg hk]
      cases hp : readToken limit opened t with
      | error e =>
        rw [hp] at h
        cases h
      | ok p =>
        rw [hp] at h
        cases p with
        | complete w =>
          cases h
          rfl
        | inside opened' => exact formsFrom_of_formFrom ts opened' read h

theorem readAll_of_readsAs {source : String} {v : Value} (h : ReadsAs source.toList v) :
    readAll source = .ok [v] := by
  have hform := h [] 0 [] delimited_nil
  rw [List.append_nil, close, resume, readFrom, lexedFrom_nil] at hform
  have hforms := formsFrom_of_formFrom _ _ [] hform
  rw [readAll, readAllWithin, TokenStream.forms, TokenStream.ofSource, lex, lexChars_eq_lexedFrom,
    hforms]
  rfl

/-! The texts of a workflow. -/

def partForms (parts : List (String × Nat)) : List Value :=
  parts.flatMap fun p => [.elem p.1, .int p.2]

namespace MaterialSpec

def call (s : MaterialSpec) : Value :=
  let generic := .list (.sym "material" :: partForms (s.elements.map fun e => (e, 1)))
  match structureType? s.structureType with
  | none => generic
  | some t =>
    if t.arity ≤ s.elements.length then
      .list (.sym t.name :: (s.elements.take t.arity).map Value.elem)
    else generic

end MaterialSpec

namespace WorkflowStep

def call : WorkflowStep → Value
  | generate spec => spec.call
  | substitute old new =>
    .list [.sym "substitute", .sym "result", .elem (withoutColons old), .elem (withoutColons new)]
  | combine other => .list [.sym "combine", .sym "result", .str other]

/-- The step as a definition of the formula. -/
def definition (step : WorkflowStep) : Value :=
  .list [.sym "define", .sym "result", step.call]

/-- Whether the names of a step are those of elements: a letter, then letters,
digits and underscores; colons may stand before the names of a substitution. -/
def isProper : WorkflowStep → Bool
  | generate spec => spec.elements.all fun e => isTag e.toList
  | substitute old new => isTag (withoutColons old).toList && isTag (withoutColons new).toList
  | combine _ => true

end WorkflowStep

def Workflow.block (w : Workflow) : Value :=
  .list (.sym "begin" :: (w.map WorkflowStep.definition ++ [.sym "result"]))

theorem catalogue_names : ∀ t ∈ catalogue,
    (isSymbolText t.name && t.name != "nil" && t.arity != 0) = true := by
  decide +kernel

theorem intercalate_cons_eq (sep : List Char) : ∀ (x : List Char) (xs : List (List Char)),
    sep.intercalate (x :: xs) = x ++ xs.flatMap fun y => sep ++ y
  | x, [] => by simp
  | x, y :: xs => by
    rw [List.intercalate_cons_cons, intercalate_cons_eq sep y xs]
    simp

theorem readsAs_call (name : String) (hname : (isSymbolText name && name != "nil") = true)
    (items : List (List Char × Value)) (hitems : ∀ p ∈ items, ReadsAs p.1 p.2) {text : String}
    (htext : text.toList = '(' :: (name.toList ++ spaced [' '] items ++ [')'])) :
    ReadsAs text.toList (.list (.sym name :: items.map Prod.snd)) := by
  simp only [Bool.and_eq_true, bne_iff_ne] at hname
  rw [htext]
  exact readsAs_spaced (by simp) (by simp [isBlank]) (readsAs_sym hname.1 hname.2) hitems

theorem readsAs_result : ReadsAs "result".toList (.sym "result") :=
  readsAs_sym (by decide +kernel) (by decide)

theorem readsAs_tags {name : String} (hname : (isSymbolText name && name != "nil") = true)
    {es : List String} (hne : es ≠ []) (hes : ∀ e ∈ es, isTag e.toList = true) :
    ReadsAs ("(" ++ name ++ " " ++ " ".intercalate (es.map fun e => ":" ++ e) ++ ")").toList
      (.list (.sym name :: es.map Value.elem)) := by
  let items := es.map fun e => (':' :: e.toList, Value.elem e)
  have hitems : ∀ p ∈ items, ReadsAs p.1 p.2 := by
    intro p hp
    obtain ⟨e, he, rfl⟩ := List.mem_map.1 hp
    exact readsAs_elem (hes e he)
  have hvalue : items.map Prod.snd = es.map Value.elem := by simp [items]
  rw [← hvalue]
  refine readsAs_call name hname items hitems ?_
  cases es with
  | nil => exact absurd rfl hne
  | cons e es => simp [items, spaced, List.flatMap_map, intercalate_cons_eq]

theorem readsAs_generic {es : List String} (hes : ∀ e ∈ es, isTag e.toList = true) :
    ReadsAs ("(material" ++ String.join (es.map fun e => " :" ++ e ++ " 1") ++ ")").toList
      (.list (.sym "material" :: partForms (es.map fun e => (e, 1)))) := by
  let items := es.flatMap fun e => [(':' :: e.toList, Value.elem e), (['1'], Value.int 1)]
  have hitems : ∀ p ∈ items, ReadsAs p.1 p.2 := by
    intro p hp
    obtain ⟨e, he, hp⟩ := List.mem_flatMap.1 hp
    simp only [List.mem_cons, List.not_mem_nil, or_false] at hp
    rcases hp with rfl | rfl
    · exact readsAs_elem (hes e he)
    · exact readsAs_int (n := 1) (by decide)
  have hvalue : items.map Prod.snd = partForms (es.map fun e => (e, 1)) := by
    simp [items, partForms, List.map_flatMap, List.flatMap_map]
  rw [← hvalue]
  refine readsAs_call "material" (by decide +kernel) items hitems ?_
  simp [items, spaced, List.flatMap_map, List.flatMap_assoc]

theorem readsAs_spec {spec : MaterialSpec} (h : ∀ e ∈ spec.elements, isTag e.toList = true) :
    ReadsAs spec.program.toList spec.call := by
  unfold MaterialSpec.program MaterialSpec.call
  cases ht : structureType? spec.structureType with
  | none => exact readsAs_generic h
  | some t =>
    have hname : t.name = spec.structureType := by simpa using List.find?_some ht
    have hproper := catalogue_names t (List.mem_of_find?_eq_some ht)
    simp only [Bool.and_eq_true, bne_iff_ne] at hproper
    by_cases hlen : t.arity ≤ spec.elements.length
    · simp only [hlen, if_true, ← hname]
      refine readsAs_tags (by simp [hproper]) ?_ fun e he => h e (List.mem_of_mem_take he)
      intro hnil
      have := congrArg List.length hnil
      rw [List.length_take, List.length_nil] at this
      omega
    · simp only [hlen, if_false]
      exact readsAs_generic h

theorem readsAs_substitute {a b : String} (ha : isTag a.toList = true)
    (hb : isTag b.toList = true) :
    ReadsAs ("(substitute result :" ++ a ++ " :" ++ b ++ ")").toList
      (.list [.sym "substitute", .sym "result", .elem a, .elem b]) := by
  refine readsAs_call "substitute" (by decide +kernel) [("result".toList, .sym "result"),
    (':' :: a.toList, .elem a), (':' :: b.toList, .elem b)] ?_ (by simp [spaced])
  simp only [List.forall_mem_cons]
  exact ⟨readsAs_result, readsAs_elem ha, readsAs_elem hb, by simp⟩

theorem readsAs_pair (name : String) (hname : (isSymbolText name && name != "nil") = true)
    {cs : List Char} {v : Value} (hv : ReadsAs cs v) :
    ReadsAs ("(" ++ name ++ " result " ++ String.ofList cs ++ ")").toList
      (.list [.sym name, .sym "result", v]) := by
  refine readsAs_call name hname [("result".toList, .sym "result"), (cs, v)] ?_ (by simp [spaced])
  simp only [List.forall_mem_cons]
  exact ⟨readsAs_result, hv, by simp⟩

theorem readsAs_step {step : WorkflowStep} (h : step.isProper = true) :
    ReadsAs step.form.toList step.call := by
  cases step with
  | generate spec => exact readsAs_spec (List.all_eq_true.1 h)
  | substitute old new =>
    simp only [WorkflowStep.isProper, Bool.and_eq_true] at h
    exact readsAs_substitute h.1 h.2
  | combine other => exact readsAs_pair "combine" (by decide +kernel) (readsAs_str other)

theorem readsAs_definition {step : WorkflowStep} (h : step.isProper = true) :
    ReadsAs ("(define result " ++ step.form ++ ")").toList step.definition := by
  have hread := readsAs_pair "define" (by decide +kernel) (readsAs_step h)
  rw [String.ofList_toList] at hread
  exact hread

theorem toList_block {α : Type} (text : α → String) (value : α → Value) (xs : List α) :
    ("\n".intercalate (["(begin"] ++ (xs.map fun x => "  (define result " ++ text x ++ ")") ++
      ["  result)"])).toList =
    '(' :: ("begin".toList ++ spaced ['\n', ' ', ' ']
      ((xs.map fun x => (("(define result " ++ text x ++ ")").toList, value x)) ++
        [("result".toList, Value.sym "result")]) ++ [')']) := by
  simp [spaced, intercalate_cons_eq, List.flatMap_map]

theorem readsAs_program {w : Workflow} (h : ∀ step ∈ w, step.isProper = true) :
    ReadsAs w.program.toList w.block := by
  let items := (w.map fun step =>
      (("(define result " ++ step.form ++ ")").toList, step.definition)) ++
    [("result".toList, Value.sym "result")]
  have hitems : ∀ p ∈ items, ReadsAs p.1 p.2 := by
    intro p hp
    rcases List.mem_append.1 hp with hp | hp
    · obtain ⟨step, hstep, rfl⟩ := List.mem_map.1 hp
      exact readsAs_definition (h step hstep)
    · rw [List.mem_singleton.1 hp]
      exact readsAs_result
  have hbegin : ReadsAs "begin".toList (.sym "begin") := readsAs_sym (by decide +kernel) (by decide)
  have hvalue : items.map Prod.snd = w.map WorkflowStep.definition ++ [.sym "result"] := by
    simp [items]
  have htext := toList_block WorkflowStep.form WorkflowStep.definition w
  rw [Workflow.block, ← hvalue]
  unfold Workflow.program Workflow.line
  rw [htext]
  exact readsAs_spaced (by simp) (by simp [isBlank]) hbegin hitems

/-- The program of a workflow is read as one form, the block of its steps. -/
theorem readAll_program {w : Workflow} (h : ∀ step ∈ w, step.isProper = true) :
    readAll w.program = .ok [w.block] :=
  readAll_of_readsAs (readsAs_program h)

/-! How deep the block nests. -/

theorem nesting_list_le {items : List Value} {n : Nat} (h : ∀ v ∈ items, v.nesting ≤ n) :
    (Value.list items).nesting ≤ n + 1 := by
  have := itemsNesting_le.2 h
  rw [Value.nesting]
  omega

theorem nesting_partForms {parts : List (String × Nat)} {v : Value} (h : v ∈ partForms parts) :
    v.nesting = 0 := by
  obtain ⟨p, -, h⟩ := List.mem_flatMap.1 h
  simp only [List.mem_cons, List.not_mem_nil, or_false] at h
  rcases h with rfl | rfl <;> rfl

theorem nesting_generic_le (es : List String) :
    (Value.list (.sym "material" :: partForms (es.map fun e => (e, 1)))).nesting ≤ 1 := by
  apply nesting_list_le
  intro v hv
  rcases List.mem_cons.1 hv with rfl | hv
  · exact Nat.le_refl 0
  · exact Nat.le_of_eq (nesting_partForms hv)

theorem nesting_call_le (step : WorkflowStep) : step.call.nesting ≤ 1 := by
  cases step with
  | generate spec =>
    rw [WorkflowStep.call, MaterialSpec.call]
    cases structureType? spec.structureType with
    | none => exact nesting_generic_le spec.elements
    | some t =>
      simp only
      split
      · apply nesting_list_le
        intro v hv
        rcases List.mem_cons.1 hv with rfl | hv
        · exact Nat.le_refl 0
        · obtain ⟨e, -, rfl⟩ := List.mem_map.1 hv
          exact Nat.le_refl 0
      · exact nesting_generic_le spec.elements
  | substitute old new => exact nesting_list_le (by simp [Value.nesting])
  | combine other => exact nesting_list_le (by simp [Value.nesting])

theorem nesting_definition_le (step : WorkflowStep) : step.definition.nesting ≤ 2 := by
  apply nesting_list_le
  simpa [Value.nesting] using nesting_call_le step

theorem nesting_block_le (w : Workflow) : w.block.nesting ≤ 3 := by
  apply nesting_list_le
  intro v hv
  rcases List.mem_cons.1 hv with rfl | hv
  · exact Nat.zero_le 2
  rcases List.mem_append.1 hv with hv | hv
  · obtain ⟨step, -, rfl⟩ := List.mem_map.1 hv
    exact nesting_definition_le step
  · rw [List.mem_singleton.1 hv]
    exact Nat.zero_le 2

end Formulary
