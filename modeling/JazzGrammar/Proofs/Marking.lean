/-
A step describes its own rewrite: its span, its replacement and its result belong together, and all
of them can be read off the text in which the replacement is marked by brackets.
-/

import JazzGrammar.Proofs.Listing

namespace JazzGrammar

theorem Progression.tokens_ne_nil {progression : Progression} (nonempty : progression ≠ []) :
    progression.tokens ≠ [] := by
  simpa [tokens] using nonempty

namespace Step

/-- A text without its brackets. -/
def unmark (text : Text) : Text :=
  text.filter fun char => char != '[' && char != ']'

/-- The pieces from the one that starts with an opening bracket up to the one that ends with a
closing bracket, without their brackets. -/
def marks (pieces : List Text) : List Text :=
  let opened := pieces.dropWhile fun piece => piece.head? != some '['
  let inner := opened.takeWhile fun piece => piece.getLast? != some ']'
  (opened.take (inner.length + 1)).map unmark

/-- A text that shows no brackets. -/
structure Bare (text : Text) : Prop where
  opening : '[' ∉ text
  closing : ']' ∉ text

section Brackets

theorem Bare.unmark {text : Text} (bare : Bare text) : unmark text = text := by
  rw [Step.unmark, List.filter_eq_self]
  intro char member
  have opening : char ≠ '[' := fun same => bare.opening (same ▸ member)
  have closing : char ≠ ']' := fun same => bare.closing (same ▸ member)
  simp [opening, closing]

/-- Tokens show no brackets. -/
theorem bare_token (timed : TimedChord) : Bare timed.token where
  opening member := absurd (TimedChord.mem_of_read timed.read_token member) (by decide)
  closing member := absurd (TimedChord.mem_of_read timed.read_token member) (by decide)

theorem bare_tokens (progression : Progression) : ∀ token ∈ progression.tokens, Bare token := by
  intro token member
  obtain ⟨timed, _, rfl⟩ := List.mem_map.1 member
  exact bare_token timed

/-- Brackets around a single token. -/
theorem bracket_singleton (only : Text) : bracket [only] = ['[' :: only ++ [']']] := rfl

/-- Brackets around several tokens: one in front of the first, one behind the last. -/
theorem bracket_concat (first last : Text) (middle : List Text) :
    bracket (first :: (middle ++ [last])) = ('[' :: first) :: (middle ++ [last ++ [']']]) := by
  rw [bracket, List.length_append, List.length_singleton, List.modify_succ_cons,
    List.modify_eq_take_cons_drop (by simp)]
  simp

/-- The brackets stand around the joined tokens. -/
theorem join_bracket (separator : Text) {tokens : List Text} (nonempty : tokens ≠ []) :
    Text.join separator (bracket tokens) = '[' :: Text.join separator tokens ++ [']'] := by
  obtain ⟨first, rest, rfl⟩ := List.exists_cons_of_ne_nil nonempty
  rcases List.eq_nil_or_concat' rest with rfl | ⟨middle, last, rfl⟩
  · rw [bracket_singleton, Text.join_singleton, Text.join_singleton]
  · rw [bracket_concat, Text.join_cons, Text.join_cons, List.flatMap_append, List.flatMap_append]
    simp

/-- Without the brackets the tokens are as before. -/
theorem unmark_bracket {tokens : List Text} (nonempty : tokens ≠ [])
    (bare : ∀ token ∈ tokens, Bare token) : (bracket tokens).map unmark = tokens := by
  obtain ⟨first, rest, rfl⟩ := List.exists_cons_of_ne_nil nonempty
  have plain : ∀ token ∈ first :: rest, unmark token = token :=
    fun token member => (bare token member).unmark
  rcases List.eq_nil_or_concat' rest with rfl | ⟨middle, last, rfl⟩
  · have only := plain first List.mem_cons_self
    simpa [bracket_singleton, unmark] using only
  · simp only [List.forall_mem_cons, List.forall_mem_append] at plain
    obtain ⟨opened, between, closed, _⟩ := plain
    rw [bracket_concat, List.map_cons, List.map_append, List.map_singleton,
      List.map_congr_left between, List.map_id']
    simpa [unmark] using And.intro opened closed

/-- Of some pieces those from an opening bracket up to a closing one are marked. -/
theorem marks_append {before front after : List Text} {closing : Text}
    (skipped : ∀ piece ∈ before, piece.head? ≠ some '[')
    (starts : ((front ++ [closing]).head?.bind List.head?) = some '[')
    (kept : ∀ piece ∈ front, piece.getLast? ≠ some ']') (ends : closing.getLast? = some ']') :
    marks (before ++ (front ++ [closing]) ++ after) = (front ++ [closing]).map unmark := by
  have opened : (before ++ (front ++ [closing]) ++ after).dropWhile
      (fun piece => piece.head? != some '[') = front ++ closing :: after := by
    have stops : (front ++ [closing] ++ after).head?.any (fun piece => piece.head? != some '[') =
        false := by
      cases front <;> simpa using starts
    rw [List.append_assoc, dropWhile_front (by simpa using skipped) stops, List.append_assoc]
    rfl
  have inner : (front ++ closing :: after).takeWhile
      (fun piece => piece.getLast? != some ']') = front :=
    takeWhile_front (by simpa using kept) (by simp [ends])
  rw [marks, opened, inner, List.take_length_add_append, List.take_succ_cons, List.take_zero]

/-- The tokens between the brackets are found among the others. -/
theorem marks_bracket {before tokens : List Text} (after : List Text) (nonempty : tokens ≠ [])
    (beforeBare : ∀ token ∈ before, Bare token) (bare : ∀ token ∈ tokens, Bare token) :
    marks (before ++ bracket tokens ++ after) = tokens := by
  have skipped : ∀ token ∈ before, token.head? ≠ some '[' :=
    fun token member starts => (beforeBare token member).opening (List.mem_of_head? starts)
  have unmarked := unmark_bracket nonempty bare
  obtain ⟨first, rest, rfl⟩ := List.exists_cons_of_ne_nil nonempty
  rcases List.eq_nil_or_concat' rest with rfl | ⟨middle, last, rfl⟩
  · rw [bracket_singleton, ← List.nil_append ['[' :: first ++ [']']]] at unmarked ⊢
    rw [marks_append skipped rfl (by simp) List.getLast?_concat, unmarked]
  · have kept : ∀ piece ∈ ('[' :: first) :: middle, piece.getLast? ≠ some ']' := by
      rw [List.forall_mem_cons]
      constructor
      · intro ends
        have closing := List.mem_of_getLast? ends
        exact (bare first List.mem_cons_self).closing (by simpa using closing)
      · intro token member ends
        exact (bare token (by simp [member])).closing (List.mem_of_getLast? ends)
    rw [bracket_concat, ← List.cons_append] at unmarked ⊢
    rw [marks_append skipped rfl kept (by simp), unmarked]

end Brackets

section Marked

/-- What is joined loses its brackets part by part. -/
theorem unmark_join {separator : Text} (bare : Bare separator) (parts : List Text) :
    unmark (Text.join separator parts) = Text.join separator (parts.map unmark) := by
  cases parts with
  | nil => rfl
  | cons first rest =>
    have plain := bare.unmark
    rw [unmark] at plain
    rw [List.map_cons, Text.join_cons, Text.join_cons, unmark, List.filter_append,
      List.filter_flatMap, List.flatMap_map]
    simp only [List.filter_append, plain, unmark]

variable {step : Step}

/-- A character that no token shows stands in the marked text as often as among the brackets. -/
theorem count_marked (nonempty : step.replacement ≠ []) {char : Char}
    (foreign : char ∉ [' ', '/', ' ']) (absent : ∀ timed : TimedChord, char ∉ timed.token) :
    step.marked.count char = ['[', ']'].count char := by
  have unseen (progression : Progression) : progression.tokens.flatten.count char = 0 := by
    rw [List.count_eq_zero]
    intro member
    obtain ⟨token, inside, within⟩ := List.mem_flatten.1 member
    obtain ⟨timed, _, rfl⟩ := List.mem_map.1 inside
    exact absent timed within
  have brackets : (bracket step.replacement.tokens).flatten.count char = ['[', ']'].count char := by
    rw [← Text.count_join foreign, join_bracket _ (Progression.tokens_ne_nil nonempty),
      List.count_append, List.count_cons, Text.count_join foreign, unseen, List.count_cons,
      List.count_cons, List.count_cons]
    omega
  rw [marked, Text.count_join foreign, List.flatten_append, List.flatten_append, List.count_append,
    List.count_append, unseen, unseen, brackets]
  omega

theorem blank_notMem_tokens (progression : Progression) :
    ∀ token ∈ progression.tokens, ' ' ∉ token := by
  intro token member blank
  obtain ⟨timed, _, rfl⟩ := List.mem_map.1 member
  exact absurd (timed.solid_write false ' ' blank) (by decide)

/-- The marked text is cut into the tokens of the result, with the brackets in their places. No blank
comes of the brackets. -/
theorem pieces_marked (nonempty : step.replacement ≠ []) :
    Text.pieces [' ', '/', ' '] step.marked =
      step.left.tokens ++ bracket step.replacement.tokens ++ step.right.tokens := by
  have written := Progression.tokens_ne_nil nonempty
  have restored := unmark_bracket written (bare_tokens step.replacement)
  apply Text.pieces_join
  · apply List.append_ne_nil_of_left_ne_nil
    apply List.append_ne_nil_of_right_ne_nil
    intro empty
    rw [empty] at restored
    exact written restored.symm
  · simp only [List.forall_mem_append]
    refine ⟨⟨blank_notMem_tokens _, fun piece member blank => ?_⟩, blank_notMem_tokens _⟩
    have token : unmark piece ∈ step.replacement.tokens :=
      restored ▸ List.mem_map_of_mem member
    exact blank_notMem_tokens _ _ token (List.mem_filter.2 ⟨blank, by decide⟩)

/-- Without its brackets it is cut into the tokens of the result. -/
theorem pieces_unmark_marked (nonempty : step.replacement ≠ []) :
    Text.pieces [' ', '/', ' '] (unmark step.marked) = step.result.tokens := by
  have separator : Bare [' ', '/', ' '] := ⟨by decide, by decide⟩
  have written := Progression.tokens_ne_nil nonempty
  have sounds : step.result ≠ [] := by simp [result, nonempty]
  have plain (progression : Progression) : progression.tokens.map unmark = progression.tokens := by
    rw [List.map_congr_left fun token member => (bare_tokens progression token member).unmark,
      List.map_id']
  have joined : unmark step.marked = Text.join [' ', '/', ' '] step.result.tokens := by
    rw [marked, unmark_join separator, List.map_append, List.map_append, plain, plain,
      unmark_bracket written (bare_tokens step.replacement), result]
    simp [Progression.tokens]
  rw [joined]
  exact Text.pieces_join (Progression.tokens_ne_nil sounds) (blank_notMem_tokens _)

end Marked

section Place

variable {step : Step} {progression : Progression}

/-- The place of a step cuts the progression into what is kept and what is replaced. -/
theorem cut_of_mem (member : step ∈ progression.steps) :
    progression.take step.start = step.left ∧
      progression.extract step.start step.stop = step.span ∧
        progression.drop step.stop = step.right := by
  obtain ⟨rfl, _⟩ := Progression.mem_steps_iff.1 member
  refine ⟨?_, extract_middle _ _ _, ?_⟩
  · rw [start, List.append_assoc, List.take_left]
  · rw [stop, ← List.length_append, List.drop_left]

theorem tokens_result (step : Step) :
    step.result.tokens = step.left.tokens ++ step.replacement.tokens ++ step.right.tokens := by
  simp [result, Progression.tokens]

/-- The place of the replacement in the result. -/
theorem extract_tokens_result (step : Step) :
    step.result.tokens.extract step.start step.stopInResult = step.replacement.tokens := by
  have slice := extract_middle step.left.tokens step.replacement.tokens step.right.tokens
  rw [Progression.tokens, Progression.tokens, List.length_map, List.length_map] at slice
  rw [tokens_result]
  exact slice

end Place

end Step

/-- No row of the table puts nothing in the place of a span. -/
theorem Rule.Admits.replacement_ne_nil {rule : Rule} {span replacement : Progression}
    (admits : rule.Admits span replacement) : replacement ≠ [] := by
  cases admits <;> exact List.cons_ne_nil _ _

namespace Progression

/-- A step describes its own rewrite. Its span is not empty and lies in the progression, its result
keeps what stands to the left and right of the span, and the place of the replacement in the result
is known. The result is read back from its tokens. The marked text shows one pair of brackets:
without them it is cut at its slashes into the tokens of the result, and from the one to the other
it shows those of the replacement. -/
theorem step_describes_itself (progression : Progression) (step : Step)
    (member : step ∈ progression.steps) :
    let slash : Text := [' ', '/', ' ']
    (step.start < step.stop ∧ step.stop ≤ progression.length) ∧
    step.span.tokens = tokens (progression.extract step.start step.stop) ∧
    step.result.tokens = tokens (progression.take step.start) ++ step.replacement.tokens ++
      tokens (progression.drop step.stop) ∧
    (step.start < step.stopInResult ∧ step.stopInResult ≤ step.result.tokens.length ∧
      step.result.tokens.extract step.start step.stopInResult = step.replacement.tokens) ∧
    ofTokens step.result.tokens = .ok step.result ∧
    (step.marked.count '[' = 1 ∧ step.marked.count ']' = 1 ∧
      Text.pieces slash (Step.unmark step.marked) = step.result.tokens ∧
      Step.marks (Text.pieces slash step.marked) = step.replacement.tokens) := by
  intro slash
  obtain ⟨shape, admits⟩ := mem_steps_iff.1 member
  obtain ⟨left, span, right⟩ := Step.cut_of_mem member
  have nonempty := admits.replacement_ne_nil
  have written := tokens_ne_nil nonempty
  have opening (timed : TimedChord) := (Step.bare_token timed).opening
  have closing (timed : TimedChord) := (Step.bare_token timed).closing
  rw [left, span, right]
  refine ⟨⟨?_, ?_⟩, rfl, step.tokens_result, ⟨?_, ?_, step.extract_tokens_result⟩,
    ofTokens_tokens _, Step.count_marked nonempty (by decide) opening,
    Step.count_marked nonempty (by decide) closing, Step.pieces_unmark_marked nonempty, ?_⟩
  · rw [Step.start, Step.stop, admits.length_span]
    exact Nat.lt_add_of_pos_right step.rule.width_positive
  · have whole := congrArg List.length shape
    rw [List.length_append, List.length_append] at whole
    rw [whole, Step.stop]
    exact Nat.le_add_right _ _
  · rw [Step.start, Step.stopInResult]
    exact Nat.lt_add_of_pos_right (List.length_pos_iff.2 nonempty)
  · simp [Step.stopInResult, Step.result, tokens]
  · rw [Step.pieces_marked nonempty]
    exact Step.marks_bracket _ written (Step.bare_tokens _) (Step.bare_tokens _)

/-- The dominant behind a tonic is split into half beats, whose tokens show slashes of their own. -/
theorem step_describes_itself_split :
    let half := Duration.half .one
    let tonic : TimedChord := ⟨⟨⟨0, 0⟩, .major⟩, .add .one .one⟩
    let dominant : Chord := ⟨⟨4, 0⟩, .dominantSeventh⟩
    let progression : Progression := [tonic, .unit dominant]
    let step : Step := ⟨.split, [tonic], [.unit dominant],
      [⟨dominant.withoutSeventh, half⟩, ⟨dominant, half⟩], []⟩
    let slash : Text := [' ', '/', ' ']
    step ∈ progression.steps ∧
    step.marked = ['I', '@', '2', ' ', '/', ' ', '[', 'V', '@', '1', '/', '2', ' ', '/', ' ', 'V',
      '7', '@', '1', '/', '2', ']'] ∧
    (step.start < step.stop ∧ step.stop ≤ progression.length) ∧
    step.span.tokens = tokens (progression.extract step.start step.stop) ∧
    step.result.tokens = tokens (progression.take step.start) ++ step.replacement.tokens ++
      tokens (progression.drop step.stop) ∧
    (step.start < step.stopInResult ∧ step.stopInResult ≤ step.result.tokens.length ∧
      step.result.tokens.extract step.start step.stopInResult = step.replacement.tokens) ∧
    ofTokens step.result.tokens = .ok step.result ∧
    (step.marked.count '[' = 1 ∧ step.marked.count ']' = 1 ∧
      Text.pieces slash (Step.unmark step.marked) = step.result.tokens ∧
      Step.marks (Text.pieces slash step.marked) = step.replacement.tokens) := by
  intro half tonic dominant progression step slash
  have member : step ∈ progression.steps := by decide +kernel
  exact ⟨member, by decide +kernel, step_describes_itself progression step member⟩

end Progression

end JazzGrammar
