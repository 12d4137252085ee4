/-
The exactness of the exploration: its levels are the distances from the first progression.
-/

import JazzGrammar.Exploration
import JazzGrammar.Proofs.Token
import Mathlib.Data.List.Nodup
import Mathlib.Data.Nat.Find

namespace JazzGrammar

/-- One step between two lists of tokens: the first is read, and the second is the written result of
some step of what was read. -/
def TokenStep (tokens next : List Text) : Prop :=
  ∃ progression, Progression.ofTokens tokens = .ok progression ∧
    ∃ step ∈ progression.steps, step.result.tokens = next

/-- The tokens that a chain of so many steps reaches. -/
def Reaches (start : List Text) : Nat → List Text → Prop
  | 0, tokens => tokens = start
  | count + 1, tokens => ∃ middle, Reaches start count middle ∧ TokenStep middle tokens

/-- The tokens whose shortest chain has exactly so many steps. -/
def AtDistance (start : List Text) (count : Nat) (tokens : List Text) : Prop :=
  Reaches start count tokens ∧ ∀ fewer < count, ¬Reaches start fewer tokens

/-- A chain reaches only tokens that a progression is written in. -/
theorem Reaches.canonical {progression : Progression} {count : Nat} {tokens : List Text}
    (reaches : Reaches progression.tokens count tokens) :
    ∃ reached : Progression, reached.tokens = tokens := by
  cases count with
  | zero => exact ⟨progression, reaches.symm⟩
  | succ count =>
    obtain ⟨_, _, _, _, step, _, result⟩ := reaches
    exact ⟨step.result, result⟩

/-- What is reached with one step more is the result of a step of what was reached before. -/
theorem reaches_succ {progression after : Progression} {count : Nat} :
    Reaches progression.tokens (count + 1) after.tokens ↔
      ∃ before : Progression, Reaches progression.tokens count before.tokens ∧
        ∃ step ∈ before.steps, step.result = after := by
  constructor
  · rintro ⟨middle, reaches, before, read, step, member, result⟩
    obtain ⟨other, rfl⟩ := reaches.canonical
    rw [Progression.ofTokens_tokens] at read
    obtain rfl := Except.ok.inj read
    exact ⟨other, reaches, step, member, Progression.tokens_injective result⟩
  · rintro ⟨before, reaches, step, member, rfl⟩
    exact ⟨before.tokens, reaches, before, Progression.ofTokens_tokens before, step, member, rfl⟩

/-- What is reached at all has a distance. -/
theorem Reaches.exists_atDistance {start : List Text} {count : Nat} {tokens : List Text}
    (reaches : Reaches start count tokens) : ∃ least ≤ count, AtDistance start least tokens := by
  classical
  have reached : ∃ count, Reaches start count tokens := ⟨count, reaches⟩
  exact ⟨Nat.find reached, Nat.find_min' reached reaches, Nat.find_spec reached,
    fun _ fewer => Nat.find_min reached fewer⟩

theorem AtDistance.unique {start : List Text} {first second : Nat} {tokens : List Text}
    (one : AtDistance start first tokens) (other : AtDistance start second tokens) :
    first = second := by
  rcases Nat.lt_trichotomy first second with less | same | more
  · exact absurd one.1 (other.2 first less)
  · exact same
  · exact absurd other.1 (one.2 second more)

/-- The next distance holds the neighbours of the previous one that no shorter chain reaches. -/
theorem atDistance_succ {start : List Text} {count : Nat} {tokens : List Text} :
    AtDistance start (count + 1) tokens ↔
      (∃ middle, AtDistance start count middle ∧ TokenStep middle tokens) ∧
        ¬∃ fewer ≤ count, Reaches start fewer tokens := by
  constructor
  · rintro ⟨⟨middle, reaches, step⟩, least⟩
    refine ⟨⟨middle, ⟨reaches, ?_⟩, step⟩, ?_⟩
    · intro fewer less sooner
      exact least (fewer + 1) (Nat.succ_lt_succ less) ⟨middle, sooner, step⟩
    · rintro ⟨fewer, bound, sooner⟩
      exact least fewer (Nat.lt_succ_of_le bound) sooner
  · rintro ⟨⟨middle, ⟨reaches, _⟩, step⟩, least⟩
    refine ⟨⟨middle, reaches, step⟩, ?_⟩
    intro fewer less sooner
    exact least ⟨fewer, Nat.le_of_lt_succ less, sooner⟩

namespace Text

/-- The computed comparison of characters is their order by code. -/
theorem compare_char {first second : Char} : compare first second = .lt ↔ first < second := by
  simp only [compare, compareOfLessAndEq]
  split
  · simpa
  · split <;> simpa using ‹¬first < second›

/-- The computed comparison of lists is the lexicographic order of their entries. -/
theorem compare_list {α : Type} [Ord α] [LT α] [Std.LawfulEqOrd α]
    (entries : ∀ first second : α, compare first second = .lt ↔ first < second)
    (first second : List α) : compare first second = .lt ↔ first < second := by
  rw [List.compare_eq_compareLex]
  induction first generalizing second with
  | nil => cases second <;> simp [List.compareLex_nil_nil, List.compareLex_nil_cons]
  | cons one rest ih =>
    cases second with
    | nil => simp [List.compareLex_cons_nil]
    | cons other later =>
      rw [List.compareLex_cons_cons, Ordering.then_eq_lt, ih, entries, List.cons_lt_cons_iff,
        Std.LawfulEqOrd.compare_eq_iff_eq]

/-- Tokens are compared one by one, and each by the codes of its characters. -/
theorem compare_tokens (first second : List Text) :
    compare first second = .lt ↔ first < second :=
  compare_list (compare_list fun _ _ => compare_char) first second

end Text

namespace Exploration

/-- After so many levels the exploration has met what is reached in as many steps, and its frontier
lists what is at this distance in ascending order. -/
structure Exact (start : List Text) (count : Nat) (exploration : Exploration) : Prop where
  seen : ∀ tokens, tokens ∈ exploration.seen ↔ ∃ fewer ≤ count, Reaches start fewer tokens
  frontier : ∀ tokens, tokens ∈ exploration.frontier ↔ AtDistance start count tokens
  ascending : exploration.frontier.Pairwise (· < ·)

theorem exact_start (progression : Progression) :
    Exact progression.tokens 0 (start progression) where
  seen tokens := by
    simp only [start, Std.TreeSet.mem_insert, Std.LawfulEqOrd.compare_eq_iff_eq, Nat.le_zero]
    simp [Reaches, eq_comm]
  frontier tokens := by simp [start, AtDistance, Reaches]
  ascending := List.pairwise_singleton _ _

/-- Tokens that a progression is written in are read back, so that its steps are found. -/
theorem results_tokens (progression : Progression) :
    results progression.tokens = .ok (progression.steps.map fun step => step.result.tokens) := by
  rw [results, Progression.ofTokens_tokens]
  rfl

theorem mem_results {progression : Progression} {tokens : List Text} :
    tokens ∈ progression.steps.map (fun step => step.result.tokens) ↔
      TokenStep progression.tokens tokens := by
  rw [List.mem_map]
  constructor
  · rintro ⟨step, member, result⟩
    exact ⟨progression, Progression.ofTokens_tokens progression, step, member, result⟩
  · rintro ⟨other, read, step, member, result⟩
    rw [Progression.ofTokens_tokens] at read
    obtain rfl := Except.ok.inj read
    exact ⟨step, member, result⟩

/-- The results of a whole frontier are found when progressions are written in its tokens. -/
theorem exists_reached (frontier : List (List Text))
    (canonical : ∀ tokens ∈ frontier, ∃ progression : Progression, progression.tokens = tokens) :
    ∃ reached, frontier.mapM results = .ok reached ∧
      ∀ tokens, tokens ∈ reached.flatten ↔ ∃ before ∈ frontier, TokenStep before tokens := by
  induction frontier with
  | nil => exact ⟨[], rfl, by simp⟩
  | cons tokens rest ih =>
    obtain ⟨progression, rfl⟩ := canonical tokens List.mem_cons_self
    obtain ⟨reached, read, members⟩ :=
      ih fun tokens member => canonical tokens (List.mem_cons_of_mem _ member)
    refine ⟨(progression.steps.map fun step => step.result.tokens) :: reached, ?_, ?_⟩
    · rw [List.mapM_cons, results_tokens, read]
      rfl
    · intro tokens
      rw [List.flatten_cons, List.mem_append, mem_results, members]
      simp

/-- The next level is found, and it lists what is at the next distance in ascending order. -/
theorem Exact.next {progression : Progression} {count : Nat} {exploration : Exploration}
    (known : Exact progression.tokens count exploration) :
    ∃ level, exploration.next = .ok level ∧ level.Pairwise (· < ·) ∧
      ∀ tokens, tokens ∈ level ↔ AtDistance progression.tokens (count + 1) tokens := by
  obtain ⟨reached, read, members⟩ := exists_reached exploration.frontier fun tokens member =>
    ((known.frontier tokens).1 member).1.canonical
  let fresh := reached.flatten.filter fun tokens => !exploration.seen.contains tokens
  refine ⟨(Std.TreeSet.ofList fresh).toList, ?_, ?_, ?_⟩
  · rw [Exploration.next, read]
    rfl
  · exact Std.TreeSet.ordered_toList.imp (Text.compare_tokens _ _).1
  · intro tokens
    rw [atDistance_succ, ← known.seen, Std.TreeSet.mem_toList, Std.TreeSet.mem_ofList,
      List.contains_iff_mem, List.mem_filter, members, Bool.not_eq_true', ← Bool.not_eq_true,
      Std.TreeSet.contains_iff_mem]
    simp only [known.frontier]

/-- One more level keeps the exploration exact. Tokens that a shorter chain reaches were met before
and are not listed again. -/
theorem Exact.advance {progression : Progression} {count : Nat} {exploration : Exploration}
    (known : Exact progression.tokens count exploration) :
    ∃ later, exploration.advance = .ok later ∧ Exact progression.tokens (count + 1) later := by
  obtain ⟨level, found, ascending, members⟩ := known.next
  refine ⟨⟨exploration.seen.insertMany level, level⟩, ?_, ?_, members, ascending⟩
  · rw [Exploration.advance, found]
    rfl
  · intro tokens
    rw [Std.TreeSet.mem_insertMany_list, List.contains_iff_mem, known.seen, members]
    constructor
    · rintro (⟨fewer, bound, reaches⟩ | ⟨reaches, _⟩)
      · exact ⟨fewer, Nat.le_succ_of_le bound, reaches⟩
      · exact ⟨count + 1, Nat.le_refl _, reaches⟩
    · rintro ⟨fewer, bound, reaches⟩
      obtain ⟨least, below, distance⟩ := reaches.exists_atDistance
      rcases Nat.le_succ_iff.1 (Nat.le_trans below bound) with sooner | rfl
      · exact .inl ⟨least, sooner, distance.1⟩
      · exact .inr distance

/-- An exact exploration lists the distances that follow, one for each level. -/
theorem Exact.levels {progression : Progression} {count : Nat} {exploration : Exploration}
    (known : Exact progression.tokens count exploration) (depth : Nat) :
    ∃ levels, exploration.levels depth = .ok levels ∧ levels.length = depth + 1 ∧
      ∀ index level, levels[index]? = some level → level.Pairwise (· < ·) ∧
        ∀ tokens, tokens ∈ level ↔ AtDistance progression.tokens (count + index) tokens := by
  induction depth generalizing count exploration with
  | zero =>
    refine ⟨[exploration.frontier], rfl, rfl, ?_⟩
    intro index level found
    obtain ⟨rfl, rfl⟩ : index = 0 ∧ level = exploration.frontier := by
      cases index <;> simp_all
    exact ⟨known.ascending, known.frontier⟩
  | succ depth ih =>
    obtain ⟨later, advanced, knownLater⟩ := known.advance
    obtain ⟨levels, found, length, holds⟩ := ih knownLater
    refine ⟨exploration.frontier :: levels, ?_, by rw [List.length_cons, length], ?_⟩
    · rw [Exploration.levels, advanced]
      simp only [bind, Except.bind, found]
      rfl
    · intro index level entry
      cases index with
      | zero =>
        obtain rfl := Option.some.inj entry
        exact ⟨known.ascending, known.frontier⟩
      | succ index =>
        rw [List.getElem?_cons_succ] at entry
        rw [← Nat.add_assoc, Nat.add_right_comm]
        exact holds index level entry

end Exploration

/-- The levels are found, one for each distance up to the depth. -/
theorem Progression.exists_levels (progression : Progression) (depth : Nat) :
    ∃ levels, progression.explore depth = .ok levels ∧ levels.length = depth + 1 ∧
      ∀ index level, levels[index]? = some level →
        ∀ tokens, tokens ∈ level ↔ AtDistance progression.tokens index tokens := by
  obtain ⟨levels, found, length, holds⟩ := (Exploration.exact_start progression).levels depth
  refine ⟨levels, ?_, length, fun index level entry => ?_⟩
  · rw [explore, if_neg (by omega), Int.toNat_natCast, found]
  · simpa only [Nat.zero_add] using (holds index level entry).2

/-- An exploration to any depth succeeds. Level `k` is the ascending list of the tokens whose
shortest chain has length `k`; so no tokens occur twice, and none that are reached within the depth
are missing. -/
theorem Progression.explore_exact (progression : Progression) (depth : Nat) :
    ∃ levels, progression.explore depth = .ok levels ∧ levels.length = depth + 1 ∧
      (∀ index level, levels[index]? = some level → level.Pairwise (· < ·) ∧
        ∀ tokens, tokens ∈ level ↔ AtDistance progression.tokens index tokens) ∧
      levels.flatten.Nodup ∧
      ∀ tokens, tokens ∈ levels.flatten ↔
        ∃ count ≤ depth, Reaches progression.tokens count tokens := by
  obtain ⟨levels, found, length, holds⟩ := (Exploration.exact_start progression).levels depth
  simp only [Nat.zero_add] at holds
  refine ⟨levels, ?_, length, holds, ?_, ?_⟩
  · rw [explore, if_neg (by omega), Int.toNat_natCast, found]
  · rw [List.nodup_flatten]
    constructor
    · intro level member
      obtain ⟨index, entry⟩ := List.mem_iff_getElem?.1 member
      refine (holds index level entry).1.imp fun less same => ?_
      exact List.lt_irrefl _ (same ▸ less)
    · rw [List.pairwise_iff_getElem]
      intro first second within bound less tokens one other
      rw [(holds first _ (List.getElem?_eq_getElem within)).2] at one
      rw [(holds second _ (List.getElem?_eq_getElem bound)).2] at other
      exact Nat.ne_of_lt less (one.unique other)
  · intro tokens
    rw [List.mem_flatten]
    constructor
    · rintro ⟨level, member, inside⟩
      obtain ⟨index, entry⟩ := List.mem_iff_getElem?.1 member
      have within := (List.getElem?_eq_some_iff.1 entry).1
      exact ⟨index, by omega, (((holds index level entry).2 tokens).1 inside).1⟩
    · rintro ⟨count, bound, reaches⟩
      obtain ⟨least, below, distance⟩ := reaches.exists_atDistance
      have within : least < levels.length := by omega
      have entry := List.getElem?_eq_getElem within
      exact ⟨_, List.getElem_mem within, ((holds least _ entry).2 tokens).2 distance⟩

end JazzGrammar
