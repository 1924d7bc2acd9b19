import MarkupIds.Proofs.Engine
import MarkupIds.Proofs.Sfc.Planned
import MarkupIds.Proofs.Sfc.Revision

/-!
# Reading back what was revised

A revised component reads as the elements it had, each planned attribute on its own element. A
second run over it finds nothing to do.
-/

namespace MarkupIds.Sfc

theorem Grows.eq_of_nil {line offset n : ℕ} {ps qs : List Piece} {es : List Edit}
    (h : Grows line offset n ps es qs) (hes : es = []) : qs = ps := by
  induction h with
  | nil n => rfl
  | char _ ih => rw [ih hes]
  | keep _ ih => rw [ih hes]
  | push _ _ _ => exact absurd hes (by simp)

theorem SheetGrows.eq_of_nil {line offset : ℕ} {sheet sheet' : List (List Piece)}
    {es : List Edit} (h : SheetGrows line offset sheet es sheet') (hes : es = []) :
    sheet' = sheet := by
  induction h with
  | nil line offset => rfl
  | cons hgrows _ ih =>
      obtain ⟨hfirst, hrest⟩ := List.append_eq_nil_iff.mp hes
      rw [hgrows.eq_of_nil hfirst, ih hrest]

/-- The elements of a component are those of the sheet of its template. -/
theorem read_elements {source : Text} {template : Section}
    (htemplate : section? source "template" = some template) {sheet : List (List Piece)}
    (hraw : sheet.map rawText = template.lines) (hlays : Lays false sheet) (path : Text) :
    ∃ offset, (read source path).elements = sheetElements template.startLine offset sheet := by
  refine ⟨lineStart source template.startLine, ?_⟩
  rw [← hlays.elementsFrom_eq, ← hlays.maskLines_eq, hraw, read, htemplate]
  rfl

theorem read_failed (source path : Text) : (read source path).failed = false := by
  rw [read]
  split <;> rfl

theorem read_elements_of_none {source : Text} (h : section? source "template" = none)
    (path : Text) : (read source path).elements = [] := by
  rw [read, h]

/-- The components that are read back: the tags of the template are unmasked and have full
names only. -/
def RegularSource (source : Text) : Prop :=
  ∀ template, section? source "template" = some template → RegularLines false template.lines

/-- What a completed run makes of a component reads as planned, and nothing in it is eligible. -/
theorem read_completed {clock : ℕ} {config : Config} {component : Option Text}
    {source path : Text} {parser : Script.Parser} {plan : Plan} {done : Revision}
    (h : Completed (Namer.standard clock) config component source path parser .vue plan done)
    (hpreserve : config.preserveExisting = true)
    (hname : isFullName config.attributeName = true) (hregular : RegularSource source) :
    done.applied = plan.edits.reverse ∧ done.diagnostics = [] ∧
      Amended (read source path).elements plan.edits (read done.code path).elements ∧
      ∀ e ∈ (read done.code path).elements, eligible config e = .ok false := by
  obtain ⟨trace, htrace, hreplay⟩ := Plan.ofElements_eq_ok_iff.mp h.planned
  have hedits : plan.edits = Plan.editsOf config trace := by
    rw [← hreplay, Plan.edits_replay]
    rfl
  have hrevised := h.revised
  have hreading : Framework.vue.read source path parser = read source path := rfl
  rw [hreading] at htrace
  cases htemplate : section? source "template" with
  | none =>
      have helements := read_elements_of_none htemplate path
      rw [helements] at htrace
      cases htrace
      rw [hedits] at hrevised
      obtain rfl : done = { code := source } := hrevised
      rw [hedits, helements]
      exact ⟨rfl, rfl, .nil, by simp⟩
  | some template =>
      obtain ⟨sheet, hlays, hraw⟩ := exists_sheet false template.lines (hregular template htemplate)
      obtain ⟨offset, helements⟩ := read_elements htemplate hraw hlays path
      rw [helements] at htrace
      obtain ⟨sheet', hgrows, hineligible⟩ :=
        exists_sheetGrows hpreserve hname hlays _ _ htrace
      rw [← hedits] at hgrows
      by_cases hempty : plan.edits = []
      · obtain rfl : done = { code := source } := by simpa [hempty] using hrevised
        have hsame := hgrows.amended hlays offset
        rw [hgrows.eq_of_nil hempty] at hsame hineligible
        dsimp only
        rw [helements]
        exact ⟨by simp [hempty], rfl, hsame, hineligible offset⟩
      · have hrevision : done = Sfc.revise source plan.edits := by
          rw [hrevised, if_neg (by simpa using hempty)]
          rfl
        rw [hgrows.revise_eq htemplate hraw hlays hempty] at hrevision
        obtain rfl := hrevision
        obtain ⟨offset', hnew⟩ := read_elements (hgrows.sections_eq htemplate hraw hlays).2
          rfl (hgrows.lays hlays) path
        dsimp only
        rw [hnew, helements]
        exact ⟨rfl, rfl, hgrows.amended hlays offset', hineligible offset'⟩

/-- A successful run over a component makes every planned edit, and its revision adds no finding.
The new code reads as the elements that were there, each edited one with its new attribute; a
second run changes nothing. -/
theorem process_reads_back (clock : ℕ) (config : Config) (component : Option Text)
    (source path : Text) (parser : Script.Parser) (hvue : Framework.forPath? path = some .vue)
    (hpreserve : config.preserveExisting = true)
    (hname : isFullName config.attributeName = true) (hregular : RegularSource source)
    (hsuccess :
      (process (Namer.standard clock) config component source path parser).success = true) :
    let o := process (Namer.standard clock) config component source path parser
    ∃ plan, Plan.ofElements (Namer.standard clock) config
        (fileScope config component .vue source path parser) (read source path).elements =
          .ok plan ∧
      o.edits = plan.edits.reverse ∧
      (revise source plan.edits).diagnostics = [] ∧
      o.diagnostics = (read source path).diagnostics ++ plan.diagnostics ∧
      Amended (read source path).elements plan.edits (read o.code path).elements ∧
      ∀ clock' component',
        let again := process (Namer.standard clock') config component' o.code path parser
        again.success = true ∧ again.edits = [] ∧ again.code = o.code := by
  intro o
  obtain ⟨f, plan, done, hdone⟩ := process_completed hsuccess
  obtain rfl : .vue = f := Option.some.inj (hvue.symm.trans hdone.framework)
  obtain ⟨happlied, hsilent, hamended, hineligible⟩ :=
    read_completed hdone hpreserve hname hregular
  have hcode : o.code = done.code := hdone.code
  refine ⟨plan, hdone.planned, hdone.edits.trans happlied, ?_, ?_, by rwa [hcode], ?_⟩
  · have hrevised := hdone.revised
    by_cases hempty : plan.edits = []
    · simp [hempty, revise]
    · rw [if_neg (by simpa using hempty)] at hrevised
      rw [← hsilent, hrevised]
      rfl
  · have hdiagnostics := hdone.diagnostics
    rwa [hsilent, List.append_nil] at hdiagnostics
  · intro clock' component'
    rw [hcode]
    exact process_of_ineligible hvue hdone.enabled (read_failed _ _) hineligible

/-- A link between a self-closing tag and a comment gets an identifier, and only once. -/
theorem process_reads_back_link :
    let source := "<template>\n<b x='<a>'/><a>y</a><!--<a>-->\n</template>".toList
    let path := "A.vue".toList
    let o := process (Namer.standard 0) {} none source path .bundled
    o.success = true ∧ ∃ plan : Plan, plan.edits.map (·.value) = ["test-a-link".toList] ∧
      o.edits = plan.edits.reverse ∧
      Amended (read source path).elements plan.edits (read o.code path).elements ∧
      (process (Namer.standard 0) {} none o.code path .bundled).code = o.code := by
  intro source path o
  let link : Element :=
    { tag := ['a'], content := some ['y'], position := some ⟨2, 13, 23⟩, framework := some .vue }
  have hplan : Plan.ofElements (Namer.standard 0) {} (fileScope {} none .vue source path .bundled)
      (read source path).elements = .ok
        { edits := [⟨.add, link, "data-testid".toList, "test-a-link".toList, ⟨2, 13, 23⟩⟩]
          taken := ["test-a-link".toList] } := by
    have helements : (read source path).elements = [link] := by decide
    have hpropose : Naming.propose [] (fileScope {} none .vue source path .bundled) link =
        .ok "test-a-link".toList := (Naming.propose_nil _ link).trans (by decide)
    have hsettle : Naming.settle 0 (some 50) [] "test-a-link".toList =
        .ok "test-a-link".toList := Naming.settle_of_not_mem _ _ (by simp)
    have heligible : eligible {} link = .ok true := by decide
    rw [helements]
    exact Plan.ofElements_singleton (Namer.standard 0) _ heligible rfl hpropose hsettle
  have hregular : RegularSource source := by
    intro template htemplate
    have hlines : section? source "template" = some
        ⟨"template".toList, 1, some 3, ["<b x='<a>'/><a>y</a><!--<a>-->".toList]⟩ := by decide
    cases hlines.symm.trans htemplate
    decide
  have hvue : Framework.forPath? path = some .vue := by decide
  have hsuccess : o.success = true := by
    obtain ⟨hdiagnostics, _⟩ := process_of_plan hvue (by decide) (read_failed source path) hplan
    rw [Outcome.success, hdiagnostics, Framework.revise, revise,
      bottomUp_eq_reverse (List.pairwise_singleton _ _)]
    decide
  obtain ⟨plan, hsame, hedits, _, _, hamended, hagain⟩ :=
    process_reads_back 0 {} none source path .bundled hvue rfl (by decide) hregular hsuccess
  obtain rfl := Except.ok.inj (hplan.symm.trans hsame)
  exact ⟨hsuccess, _, by decide, hedits, hamended, (hagain 0 none).2.2⟩

end MarkupIds.Sfc
