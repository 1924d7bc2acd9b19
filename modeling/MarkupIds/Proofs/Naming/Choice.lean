import MarkupIds.Naming.Proposal
import MarkupIds.Proofs.Lists
import Mathlib.Data.Int.Order.Basic

/-!
# The rule that names an element

Of the rules that have an answer for an element the one of greatest priority names it, the earliest
among equals. Rules without an answer do not count, nor does the order of rules of different
priority, as long as the others answer as before: generators see the list that they stand in.
-/

namespace MarkupIds

namespace Rule

/-- A rule has an answer for an element: it accepts the element, and its generator gives a text
that is not empty. -/
structure Answers (r : Rule) (e : Element) (scope : Scope) (answer : Text) : Prop where
  accepts : r.accepts e = .ok true
  generates : r.generator e scope = .ok (some answer)
  filled : answer ≠ []

/-- A rule has no answer for an element. -/
inductive Silent (r : Rule) (e : Element) (scope : Scope) : Prop where
  | malformed (reason : SelectorError) (h : Selector.read r.selector = .error reason)
  | refuses (h : r.accepts e = .ok false)
  | fails (failure : Failure) (h : r.generator e scope = .error failure)
  | passes (h : r.generator e scope = .ok none)
  | empty (h : r.generator e scope = .ok (some []))

/-- The rule that names an element: of those that have an answer, none has a greater priority, and
none in front of it the same. -/
structure Names (rules : List Rule) (e : Element) (scope : Scope) (r : Rule) (answer : Text) :
    Prop where
  answers : r.Answers e scope answer
  place : ∃ front back, rules = front ++ r :: back ∧
    (∀ s ∈ front, s.Silent e scope ∨ s.priority < r.priority) ∧
    ∀ s ∈ back, s.Silent e scope ∨ s.priority ≤ r.priority

/-- A rule has the same answer for an element in two scopes, or none in both. -/
def AnswersAlike (r : Rule) (e : Element) (scope scope' : Scope) : Prop :=
  ∀ answer, r.Answers e scope answer ↔ r.Answers e scope' answer

/-- The generator of a rule does not look at the rules that it is listed with. -/
def Blind (r : Rule) : Prop :=
  ∀ e scope heads, r.generator e { scope with rules := heads } = r.generator e scope

/-- The second list has rules without an answer put in anywhere among those of the first, which
answer in its scope as they do in their own. -/
inductive Padded (e : Element) (scope scope' : Scope) : List Rule → List Rule → Prop where
  | nil : Padded e scope scope' [] []
  | keep (r : Rule) {rules more : List Rule} (hr : r.AnswersAlike e scope scope')
      (h : Padded e scope scope' rules more) : Padded e scope scope' (r :: rules) (r :: more)
  | insert (r : Rule) {rules more : List Rule} (hr : r.Silent e scope')
      (h : Padded e scope scope' rules more) : Padded e scope scope' rules (r :: more)

/-! ## Answers -/

/-- What the generator of a rule gives, unless it fails or gives nothing. -/
def reply? (r : Rule) (e : Element) (scope : Scope) : Option Text :=
  match r.generator e scope with
  | .ok (some (c :: cs)) => some (c :: cs)
  | _ => none

/-- The reply of a rule that accepts the element. -/
def answer? (r : Rule) (e : Element) (scope : Scope) : Option Text :=
  if r.accepts e matches .ok true then r.reply? e scope else none

variable {r : Rule} {e : Element} {scope scope' : Scope} {answer : Text}

theorem reply?_eq_some_iff :
    r.reply? e scope = some answer ↔ r.generator e scope = .ok (some answer) ∧ answer ≠ [] := by
  unfold reply?
  split
  · rename_i hgenerator
    rw [hgenerator]
    constructor
    · rintro ⟨⟩
      exact ⟨rfl, List.cons_ne_nil _ _⟩
    · rintro ⟨hsame, -⟩
      exact Except.ok.inj hsame
  · rename_i hother
    refine iff_of_false nofun ?_
    rintro ⟨hgenerator, hne⟩
    obtain ⟨c, cs, rfl⟩ := List.exists_cons_of_ne_nil hne
    exact hother c cs hgenerator

theorem answer?_eq_some_iff : r.answer? e scope = some answer ↔ r.Answers e scope answer := by
  unfold answer?
  split
  · rename_i haccepts
    rw [if_pos rfl, reply?_eq_some_iff]
    exact ⟨fun h => ⟨haccepts, h.1, h.2⟩, fun h => ⟨h.generates, h.filled⟩⟩
  · rename_i haccepts
    exact iff_of_false nofun fun h => haccepts h.accepts

theorem accepts_eq_error_iff {reason : SelectorError} :
    r.accepts e = .error reason ↔ Selector.read r.selector = .error reason := by
  rw [accepts, Selector.holds]
  cases Selector.read r.selector with
  | error other => simp [bind, Except.bind]
  | ok selectors => exact iff_of_false nofun nofun

theorem silent_iff : r.Silent e scope ↔ ∀ answer, ¬ r.Answers e scope answer := by
  constructor
  · rintro hsilent answer ⟨haccepts, hgenerates, hne⟩
    cases hsilent with
    | malformed reason h =>
        rw [accepts_eq_error_iff.mpr h] at haccepts
        exact nomatch haccepts
    | refuses h =>
        rw [h] at haccepts
        exact nomatch haccepts
    | fails failure h =>
        rw [h] at hgenerates
        exact nomatch hgenerates
    | passes h =>
        rw [h] at hgenerates
        exact nomatch hgenerates
    | empty h =>
        rw [h] at hgenerates
        obtain rfl := Option.some.inj (Except.ok.inj hgenerates)
        exact hne rfl
  · intro hnone
    cases haccepts : r.accepts e with
    | error reason => exact .malformed reason (accepts_eq_error_iff.mp haccepts)
    | ok accepted =>
        cases accepted with
        | false => exact .refuses haccepts
        | true =>
            cases hgenerates : r.generator e scope with
            | error failure => exact .fails failure hgenerates
            | ok given =>
                match given with
                | none => exact .passes hgenerates
                | some [] => exact .empty hgenerates
                | some (c :: cs) =>
                    exact (hnone _ ⟨haccepts, hgenerates, List.cons_ne_nil c cs⟩).elim

theorem answer?_eq_none_iff : r.answer? e scope = none ↔ r.Silent e scope := by
  rw [silent_iff, Option.eq_none_iff_forall_ne_some]
  exact forall_congr' fun answer => not_congr answer?_eq_some_iff

theorem AnswersAlike.answer?_eq (h : r.AnswersAlike e scope scope') :
    r.answer? e scope' = r.answer? e scope := by
  refine Option.ext fun answer => ?_
  rw [answer?_eq_some_iff, answer?_eq_some_iff]
  exact (h answer).symm

theorem Blind.generator_seeing (h : r.Blind) (e : Element) (scope : Scope) (rules : List Rule) :
    r.generator e (scope.seeing rules) = r.generator e scope :=
  h e scope _

/-- Rules that do not look at the list answer alike in all lists. -/
theorem Blind.answersAlike (h : r.Blind) (e : Element) (scope : Scope) (rules more : List Rule) :
    r.AnswersAlike e (scope.seeing rules) (scope.seeing more) := by
  have hsame := (h.generator_seeing e scope rules).trans (h.generator_seeing e scope more).symm
  exact fun answer =>
    ⟨fun hanswers => ⟨hanswers.accepts, hsame.symm.trans hanswers.generates, hanswers.filled⟩,
      fun hanswers => ⟨hanswers.accepts, hsame.trans hanswers.generates, hanswers.filled⟩⟩

/-! ## Rules in their order -/

/-- All rules in the order they are asked in. -/
def ranked (rules : List Rule) : List Rule :=
  rules.mergeSort fun r s => s.priority ≤ r.priority

theorem fst_firstAnswer (e : Element) (scope : Scope) (rules : List Rule) :
    (firstAnswer e scope rules).1 = rules.findSome? (·.reply? e scope) := by
  induction rules with
  | nil => rfl
  | cons r rules ih =>
      rw [firstAnswer, List.findSome?_cons, reply?]
      cases r.generator e scope with
      | error failure => exact ih
      | ok given =>
          match given with
          | none => exact ih
          | some [] => exact ih
          | some (c :: cs) => rfl

theorem findSome?_filter (p : Rule → Bool) (f : Rule → Option Text) (rules : List Rule) :
    (rules.filter p).findSome? f = rules.findSome? fun r => if p r then f r else none := by
  induction rules with
  | nil => rfl
  | cons r rules ih =>
      rw [List.filter_cons, List.findSome?_cons]
      split
      · rw [List.findSome?_cons, ih]
      · exact ih

/-- The first answer is that of the first rule which has one. -/
theorem fst_firstAnswer_matching (rules : List Rule) (e : Element) (scope : Scope) :
    (firstAnswer e scope (matching rules e)).1 =
      (ranked rules).findSome? (·.answer? e scope) := by
  rw [fst_firstAnswer, matching, mergeSort_key_filter Rule.priority, findSome?_filter]
  rfl

/-- Only the rules that have an answer matter. -/
theorem findSome?_ranked (rules : List Rule) (e : Element) (scope : Scope) :
    (ranked rules).findSome? (·.answer? e scope) =
      (ranked (rules.filter fun r => (r.answer? e scope).isSome)).findSome?
        (·.answer? e scope) := by
  rw [ranked, ranked, mergeSort_key_filter Rule.priority, findSome?_filter]
  congr 1
  funext r
  cases r.answer? e scope <;> rfl

theorem Silent.of_isSome {s : Rule} {p : Prop} (h : s.Silent e scope ∨ p)
    (hsome : (s.answer? e scope).isSome = true) : p := by
  refine h.resolve_left fun hsilent => ?_
  rw [answer?_eq_none_iff.mpr hsilent] at hsome
  exact Bool.noConfusion hsome

theorem Names.findSome?_ranked {rules : List Rule} (h : Names rules e scope r answer) :
    (ranked rules).findSome? (·.answer? e scope) = some answer := by
  obtain ⟨hanswers, front, back, rfl, hfront, hback⟩ := h
  have hanswer := answer?_eq_some_iff.mpr hanswers
  let speaks (s : Rule) : Bool := (s.answer? e scope).isSome
  have hfirst : (ranked (front.filter speaks ++ r :: back.filter speaks)).head? = some r := by
    refine head?_mergeSort_key Rule.priority ?_ ?_
    · intro s hs
      obtain ⟨hmem, hsome⟩ := List.mem_filter.mp hs
      exact Silent.of_isSome (hfront s hmem) hsome
    · intro s hs
      obtain ⟨hmem, hsome⟩ := List.mem_filter.mp hs
      exact Silent.of_isSome (hback s hmem) hsome
  obtain ⟨rest, hrest⟩ := List.head?_eq_some_iff.mp hfirst
  rw [Rule.findSome?_ranked, List.filter_append, List.filter_cons_of_pos (by simp [hanswer]), hrest,
    List.findSome?_cons, hanswer]

theorem findSome?_ranked_eq_none {rules : List Rule} (h : ∀ r ∈ rules, r.Silent e scope) :
    (ranked rules).findSome? (·.answer? e scope) = none := by
  rw [List.findSome?_eq_none_iff]
  intro r hr
  exact answer?_eq_none_iff.mpr (h r (List.mem_mergeSort.mp hr))

/-- Unless all rules are silent, one of them names the element. -/
theorem silent_or_exists_names (rules : List Rule) (e : Element) (scope : Scope) :
    (∀ r ∈ rules, r.Silent e scope) ∨ ∃ r answer, Names rules e scope r answer := by
  induction rules with
  | nil => exact .inl (by simp)
  | cons s rules ih =>
      by_cases hs : s.Silent e scope
      · rcases ih with hsilent | ⟨r, answer, hanswers, front, back, rfl, hfront, hback⟩
        · exact .inl (List.forall_mem_cons.mpr ⟨hs, hsilent⟩)
        · exact .inr ⟨r, answer, hanswers, s :: front, back, rfl,
            List.forall_mem_cons.mpr ⟨.inl hs, hfront⟩, hback⟩
      · simp only [silent_iff, not_forall, not_not] at hs
        obtain ⟨given, hgiven⟩ := hs
        rcases ih with hsilent | ⟨r, answer, hanswers, front, back, rfl, hfront, hback⟩
        · exact .inr ⟨s, given, hgiven, [], rules, rfl, by simp, fun t ht => .inl (hsilent t ht)⟩
        · rcases le_or_gt r.priority s.priority with hle | hlt
          · refine .inr ⟨s, given, hgiven, [], front ++ r :: back, rfl, by simp, ?_⟩
            intro t ht
            rcases List.mem_append.mp ht with ht | ht
            · exact (hfront t ht).imp_right fun h => h.le.trans hle
            · rcases List.mem_cons.mp ht with rfl | ht
              · exact .inr hle
              · exact (hback t ht).imp_right fun h => h.trans hle
          · exact .inr ⟨r, answer, hanswers, s :: front, back, rfl,
              List.forall_mem_cons.mpr ⟨.inr hlt, hfront⟩, hback⟩

theorem findSome?_ranked_congr {rules : List Rule}
    (h : ∀ r ∈ rules, r.AnswersAlike e scope scope') :
    (ranked rules).findSome? (·.answer? e scope') =
      (ranked rules).findSome? (·.answer? e scope) := by
  rw [← List.head?_filterMap, ← List.head?_filterMap]
  exact congrArg List.head?
    (List.filterMap_congr fun r hr => (h r (List.mem_mergeSort.mp hr)).answer?_eq)

theorem Padded.answersAlike {rules more : List Rule} (h : Padded e scope scope' rules more) :
    ∀ r ∈ rules, r.AnswersAlike e scope scope' := by
  induction h with
  | nil => simp
  | keep r hr _ ih => exact List.forall_mem_cons.mpr ⟨hr, ih⟩
  | insert r _ _ ih => exact ih

theorem Padded.filter_eq {rules more : List Rule} (h : Padded e scope scope' rules more) :
    (more.filter fun r => (r.answer? e scope').isSome) =
      rules.filter fun r => (r.answer? e scope).isSome := by
  induction h with
  | nil => rfl
  | keep r hr _ ih => rw [List.filter_cons, List.filter_cons, ih, hr.answer?_eq]
  | insert r hr _ ih =>
      rw [List.filter_cons_of_neg (by simp [answer?_eq_none_iff.mpr hr]), ih]

theorem Padded.findSome?_ranked {rules more : List Rule} (h : Padded e scope scope' rules more) :
    (ranked more).findSome? (·.answer? e scope') =
      (ranked rules).findSome? (·.answer? e scope) := by
  rw [Rule.findSome?_ranked more, h.filter_eq,
    findSome?_ranked_congr fun r hr => h.answersAlike r (List.mem_of_mem_filter hr),
    ← Rule.findSome?_ranked]

/-- The order of rules counts only among those of one priority. -/
theorem ranked_eq_of_filter {rules order : List Rule}
    (h : ∀ p, order.filter (·.priority == p) = rules.filter (·.priority == p)) :
    ranked order = ranked rules := by
  refine mergeSort_key_eq Rule.priority (pairwise_mergeSort_key Rule.priority rules) ?_
  intro p
  exact (filter_mergeSort_key Rule.priority rules p).trans (h p).symm

end Rule

namespace Naming

/-- The first answer of the rules in their order goes into the proposal. -/
theorem propose_eq (rules : List Rule) (scope : Scope) (e : Element) :
    propose rules scope e =
      match (Rule.ranked rules).findSome? (·.answer? e (scope.seeing rules)) with
      | some answer => .ok (clean (boundOf scope) answer)
      | none => assemble scope (defaultEntries scope e) := by
  rw [← Rule.fst_firstAnswer_matching, propose, proposeNoting]
  rcases Rule.firstAnswer e (scope.seeing rules) (Rule.matching rules e) with ⟨answer, notices⟩
  cases answer <;> rfl

/-- A rule that gives buttons a fixed name. -/
def buttonRule (word : String) (priority : Int) : Rule :=
  ⟨"button".toList, fun _ _ => .ok (some word.toList), priority⟩

theorem buttonRule_blind (word : String) (priority : Int) : (buttonRule word priority).Blind :=
  fun _ _ _ => rfl

/-- A rule that counts the rules answers otherwise when one without an answer is put in. -/
example :
    let e : Element := { tag := ['a'] }
    let counting : Rule :=
      ⟨['*'], fun _ scope => .ok (some ('n' :: Text.decimal scope.rules.length)), 0⟩
    let silent : Rule := ⟨['b'], fun _ _ => .ok none, 0⟩
    propose [counting] {} e = .ok "n1".toList ∧
      propose [counting, silent] {} e = .ok "n2".toList := by
  constructor
  all_goals
    rw [propose_eq, Rule.ranked, List.mergeSort_of_pairwise (by decide)]
    decide +kernel

end Naming

end MarkupIds
