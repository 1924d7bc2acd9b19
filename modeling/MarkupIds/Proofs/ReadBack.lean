import MarkupIds.Proofs.Script.Overwrite
import MarkupIds.Proofs.Sfc.Overwrite
import MarkupIds.Proofs.Sfc.Planned

/-!
# A value that is set is read back

Reading keeps the last value of a name that stands several times in a tag, and editing changes the
first. What is set is read back where the two are the same attribute.
-/

namespace MarkupIds

/-- The edit that gives an attribute of an element a value. -/
def Element.setting (e : Element) (place : Position) (name value : Text) : Edit where
  kind := if (e.attribute? name).isSome then .modify else .add
  element := e
  name := name
  value := value
  position := place

theorem Element.setting_kind (e : Element) (place : Position) (name value : Text) :
    (e.setting place name value).kind ≠ .remove := by
  unfold Element.setting
  dsimp only
  split <;> simp

namespace Framework

/-- An attribute of an element can be set and read back: in a component at the site of its tag, in
a script if the tag has the attribute at most once. -/
def Settable (f : Framework) (source path : Text) (parser : Script.Parser) (e : Element)
    (name : Text) : Prop :=
  match f with
  | .vue => ∀ s : Sfc.Site source, s.Shows e → s.Settable name
  | .react => ∀ tree, parser.tree? source path = some tree →
      ∀ n ∈ Script.Node.elementsOf tree, Script.elementOf? source n = some e →
        ∀ opening ∈ n.opening?, opening.children.countP (Script.Node.isNamed source name) ≤ 1

/-- A new script is parsed as the old one, but for an attribute of one element. -/
def Respelled (f : Framework) (source path : Text) (parser : Script.Parser) (e : Element)
    (name value code : Text) : Prop :=
  match f with
  | .vue => True
  | .react => ∀ tree newTree, parser.tree? source path = some tree →
      parser.tree? code path = some newTree →
        ∀ n ∈ Script.Node.elementsOf tree, Script.elementOf? source n = some e →
          Script.Respelled source n name value code newTree

end Framework

/-- A value that an edit sets is read back of the element at the same place. -/
theorem set_reads_back (f : Framework) (source path : Text) (parser : Script.Parser)
    (hparser : f = .react → parser.Ordered ∧ parser.Distinct) (e : Element)
    (he : e ∈ (f.read source path parser).elements) (place : Position)
    (hplace : e.position = some place) (name value : Text) (hname : Sfc.isFullName name = true)
    (hvalue : ∀ c ∈ value, Text.isWordChar c = true ∨ c = '-')
    (hsettable : f.Settable source path parser e name) :
    let r := f.revise source [e.setting place name value] path parser
    r.applied = [e.setting place name value] →
      f.Respelled source path parser e name value r.code →
        r.diagnostics = [] ∧
          ∃ e' ∈ (f.read r.code path parser).elements, e'.attribute? name = some value ∧
            ∃ place', e'.position = some place' ∧ place'.line = place.line ∧
              place'.column = place.column := by
  have hplain := Sfc.plain_of_isWordChar hname hvalue
  have hkind := e.setting_kind place name value
  cases f with
  | vue =>
      intro r _ _
      obtain ⟨s, hshows⟩ := Sfc.Site.exists_of_mem he
      have hset : s.SetBy (e.setting place name value) := hshows.setBy hkind hplace
      exact (Sfc.revise_set (hsettable s hshows) hname hplain hset path).2
  | react =>
      intro r happlied hrespelled
      obtain ⟨hordered, hdistinct⟩ := hparser rfl
      obtain ⟨tree, htree, n, hn, helement⟩ := Script.exists_node_of_mem he
      have hspot : place = .ofOffset source n.start :=
        Option.some.inj (hplace.symm.trans (Script.position_of_elementOf? helement))
      obtain ⟨hsilent, newTree, hnew, hread⟩ := Script.revise_set (e := e.setting place name value)
        hordered hdistinct htree hn helement hspot (hplain.not_mem_value (by decide))
        (hsettable tree htree n hn helement) happlied
      obtain ⟨e', he', hattribute, hsame⟩ :=
        hread (hrespelled tree newTree htree hnew n hn helement)
      exact ⟨hsilent, e', he', hattribute, place, hsame, rfl, rfl⟩

/-- The value of a link is replaced, in a component and in a script. -/
theorem set_reads_back_link :
    let name := "data-testid".toList
    let value := "go".toList
    (let source := "<template>\n<a data-testid='x'>y</a>\n</template>".toList
      let path := "A.vue".toList
      ∃ e ∈ (Framework.vue.read source path .bundled).elements, ∃ place, e.position = some place ∧
        let r := Framework.vue.revise source [e.setting place name value] path .bundled
        r.code = "<template>\n<a data-testid=\"go\">y</a>\n</template>".toList ∧
        ∃ e' ∈ (Framework.vue.read r.code path .bundled).elements,
          e'.attribute? name = some value) ∧
    (let source := "<a data-testid='x'/>".toList
      let path := "A.jsx".toList
      ∃ e ∈ (Framework.react.read source path .bundled).elements, ∃ place, e.position = some place ∧
        let r := Framework.react.revise source [e.setting place name value] path .bundled
        r.code = "<a data-testid=\"go\"/>".toList ∧
        ∃ e' ∈ (Framework.react.read r.code path .bundled).elements,
          e'.attribute? name = some value) := by
  intro name value
  have hletters : value.all (fun c => Text.isWordChar c || c == '-') = true := by decide
  have hvalueChars : ∀ c ∈ value, Text.isWordChar c = true ∨ c = '-' := by simpa using hletters
  constructor
  · intro source path
    let e : Element :=
      { tag := ['a'], attributes := [(name, ['x'])], content := some ['y']
        position := some ⟨2, 1, 11⟩, framework := some .vue }
    let site : Sfc.Site source :=
      { template := ⟨"template".toList, 1, some 3, ["<a data-testid='x'>y</a>".toList]⟩
        index := 0
        raw := "<a data-testid='x'>y</a>".toList
        masked := "<a data-testid='x'>y</a>".toList
        column := 0
        tag := { name := ['a'], attributes := [⟨[' '], name, some ⟨[], [], .single, ['x']⟩⟩] }
        after := "y</a>".toList
        template_eq := by decide
        raw_eq := rfl
        masked_eq := by decide
        found := by decide
        unclosed := rfl }
    have he : e ∈ (Framework.vue.read source path .bundled).elements := by decide
    have hshows : site.Shows e := ⟨11, by decide⟩
    have hsettable : site.Settable name := by
      refine ⟨by decide, ?_, by decide, .inr (by decide)⟩
      simp only [site, List.mem_singleton, forall_eq]
      exact .inl (by decide)
    have hrevise : Framework.vue.revise source [e.setting ⟨2, 1, 11⟩ name value] path .bundled =
        { code := "<template>\n<a data-testid=\"go\">y</a>\n</template>".toList
          applied := [e.setting ⟨2, 1, 11⟩ name value] } := by
      rw [Framework.revise, Sfc.revise, Sfc.bottomUp_eq_reverse (List.pairwise_singleton _ _)]
      decide
    obtain ⟨_, e', he', hvalue, _⟩ := set_reads_back .vue source path .bundled
      (fun hreact => absurd hreact (by decide)) e he ⟨2, 1, 11⟩ rfl name value (by decide)
      hvalueChars
      (fun s hs => Sfc.Site.eq_of_shows hshows hs ▸ hsettable) (by rw [hrevise]) trivial
    exact ⟨e, he, _, rfl, by rw [hrevise], e', he', hvalue⟩
  · intro source path
    let code := "<a data-testid=\"go\"/>".toList
    let e : Element :=
      { tag := ['a'], attributes := [(name, ['x'])], position := some ⟨1, 1, 0⟩
        framework := some .react }
    have he : e ∈ (Framework.react.read source path .bundled).elements := by decide +kernel
    have hrevise : Framework.react.revise source [e.setting ⟨1, 1, 0⟩ name value] path .bundled =
        { code, applied := [e.setting ⟨1, 1, 0⟩ name value] } := by
      decide +kernel
    have htrees : ∀ tree ∈ Script.Parser.bundled.tree? source path,
        ∀ newTree ∈ Script.Parser.bundled.tree? code path,
        ∀ n ∈ Script.Node.elementsOf tree, Script.Respelled source n name value code newTree ∧
          ∀ opening ∈ n.opening?,
            opening.children.countP (Script.Node.isNamed source name) ≤ 1 := by
      decide +kernel
    have hclean : (Script.Parser.bundled.tree? code path).isSome = true := by decide +kernel
    obtain ⟨newTree, hnew⟩ := Option.isSome_iff_exists.mp hclean
    obtain ⟨_, e', he', hvalue, _⟩ := set_reads_back .react source path .bundled
      (fun _ => ⟨Script.Parser.bundled_ordered, Script.Parser.bundled_distinct⟩) e he
      ⟨1, 1, 0⟩ rfl name value (by decide) hvalueChars
      (fun tree htree n hn _ => (htrees tree htree newTree hnew n hn).2) (by rw [hrevise])
      (by
        rw [hrevise]
        exact fun tree newTree htree hnew n hn _ => (htrees tree htree newTree hnew n hn).1)
    exact ⟨e, he, _, rfl, by rw [hrevise], e', he', hvalue⟩

/-- A second attribute of the same name hides the value that an edit has set, in a component and in
a script. -/
theorem set_hidden_by_repeat :
    let name := "data-testid".toList
    let value := "go".toList
    (let source := "<template>\n<a data-testid='x' data-testid='y'>z</a>\n</template>".toList
      let path := "A.vue".toList
      ∃ e ∈ (Framework.vue.read source path .bundled).elements, ∃ place, e.position = some place ∧
        let r := Framework.vue.revise source [e.setting place name value] path .bundled
        r.applied = [e.setting place name value] ∧ r.diagnostics = [] ∧
        ∀ e' ∈ (Framework.vue.read r.code path .bundled).elements,
          e'.attribute? name ≠ some value) ∧
    (let source := "<a data-testid='x' data-testid='y'/>".toList
      let path := "A.jsx".toList
      ∃ e ∈ (Framework.react.read source path .bundled).elements, ∃ place, e.position = some place ∧
        let r := Framework.react.revise source [e.setting place name value] path .bundled
        r.applied = [e.setting place name value] ∧ r.diagnostics = [] ∧
        Framework.react.Respelled source path .bundled e name value r.code ∧
        ∀ e' ∈ (Framework.react.read r.code path .bundled).elements,
          e'.attribute? name ≠ some value) := by
  intro name value
  constructor
  · intro source path
    let e : Element :=
      { tag := ['a'], attributes := [(name, ['y'])], content := some ['z']
        position := some ⟨2, 1, 11⟩, framework := some .vue }
    refine ⟨e, by decide, ⟨2, 1, 11⟩, rfl, ?_⟩
    rw [Framework.revise, Sfc.revise, Sfc.bottomUp_eq_reverse (List.pairwise_singleton _ _)]
    decide
  · intro source path
    let code := "<a data-testid=\"go\" data-testid='y'/>".toList
    let e : Element :=
      { tag := ['a'], attributes := [(name, ['y'])], position := some ⟨1, 1, 0⟩
        framework := some .react }
    have hrevise : Framework.react.revise source [e.setting ⟨1, 1, 0⟩ name value] path .bundled =
        { code, applied := [e.setting ⟨1, 1, 0⟩ name value] } := by
      decide +kernel
    have htrees : ∀ tree ∈ Script.Parser.bundled.tree? source path,
        ∀ newTree ∈ Script.Parser.bundled.tree? code path,
        ∀ n ∈ Script.Node.elementsOf tree, Script.Respelled source n name value code newTree := by
      decide +kernel
    refine ⟨e, by decide +kernel, ⟨1, 1, 0⟩, rfl, ?_⟩
    rw [hrevise]
    refine ⟨rfl, rfl, ?_, by decide +kernel⟩
    exact fun tree newTree htree hnew n hn _ => htrees tree htree newTree hnew n hn

end MarkupIds
