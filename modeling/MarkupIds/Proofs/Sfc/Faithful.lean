import MarkupIds.Proofs.Atomicity
import MarkupIds.Proofs.Sfc.Overwrite
import MarkupIds.Proofs.Sfc.Planned
import MarkupIds.Proofs.Sfc.Revision
import MarkupIds.Proofs.Sfc.Stretch

/-!
# Comments are never edited

Edits are made from the back of a line to its front, so the tag of each edit still stands where it
was read, with the comments in front of it. Where the tag is free of comments, so is what is put in
its place.
-/

namespace MarkupIds.Sfc

/-! ## One edit -/

namespace Site

variable {source : Text}

/-- Some lines have the tag of a site where the template has it, and what stands in front of it. -/
def Stands (s : Site source) (lines : List Text) : Prop :=
  ∃ line, lines[s.index]? = some line ∧ s.raw.take (s.column + s.tag.render.length) <+: line

/-- An edit at a tag that is free of comments leaves the text in front of it and all comments of its
line as they are. -/
theorem Unmasked.exists_editLine {s : Site source} (h : s.Unmasked) {e : Edit} (hset : s.SetBy e)
    (hname : ¬ "<!--".toList <:+: e.name) (hvalue : '<' ∉ e.value) {line : Text}
    (hline : s.raw.take (s.column + s.tag.render.length) <+: line) :
    ∃ line', editLine line e = .ok line' ∧ s.raw.take s.column <+: line' ∧
      comments s.inside line' = comments s.inside line := by
  obtain ⟨front, rest, shown, hraw, hlength, _, _, hunmarked, hfront, _⟩ := h.exists_split
  have hhead : s.raw.take (s.column + s.tag.render.length) = front ++ s.tag.render := by
    rw [hraw, ← List.append_assoc, ← hlength, ← List.length_append, List.take_left]
  obtain ⟨tail, rfl⟩ := hline
  rw [hhead, List.append_assoc]
  have hclosed : (maskLine s.inside front).2 = false := congrArg Prod.snd hfront
  refine ⟨_, hset.editLine_eq hlength tail, ?_, ?_⟩
  · rw [hraw, ← hlength, List.take_left]
    exact List.prefix_append _ _
  · rw [comments_tag (hunmarked.set s.sound hname hvalue) hclosed, comments_tag hunmarked hclosed]

end Site

/-! ## A run of edits -/

/-- The lines of a template after some edits: their comments are those of the template, and every tag
in front of the edits still stands. -/
structure Progress.Faithful (source : Text) (lines : List Text) (es : List Edit) (p : Progress) :
    Prop where
  comments : commentLines false p.lines = commentLines false lines
  stands : ∀ (s : Site source) (e : Edit), s.SetBy e → (∀ f ∈ es, Precedes e f) → s.Stands p.lines

/-- Edits that have been made from the last one to the first. -/
def Progress.backward (template : Section) (es : List Edit) : Progress :=
  es.foldr (fun e p => Progress.step template.startLine p e) { lines := template.lines }

theorem Progress.applied_subset_step (start : ℕ) (p : Progress) (e : Edit) :
    p.applied ⊆ (p.step start e).applied := by
  intro f hf
  unfold Progress.step
  split
  · exact List.mem_append_left _ hf
  · exact hf

section Run

variable {source : Text} {template : Section} {es : List Edit} {p : Progress}

/-- An edit in front of those that have been made keeps all comments, if it is refused or its tag is
free of comments. -/
theorem Progress.Faithful.step (htemplate : section? source "template" = some template)
    (h : p.Faithful source template.lines es) {e : Edit} {s : Site source} (hset : s.SetBy e)
    (hbefore : ∀ f ∈ es, Precedes e f) (hname : ¬ "<!--".toList <:+: e.name)
    (hvalue : '<' ∉ e.value)
    (hunmasked : e ∈ (p.step template.startLine e).applied → s.Unmasked) :
    (p.step template.startLine e).Faithful source template.lines (e :: es) := by
  obtain rfl : s.template = template := Option.some.inj (s.template_eq.symm.trans htemplate)
  cases hedit : editLines s.template.startLine p.lines e with
  | error reason =>
      have hlines : (p.step s.template.startLine e).lines = p.lines := by
        rw [Progress.step, hedit]
      refine ⟨by rw [hlines]; exact h.comments, fun s' e' hset' hbefore' => ?_⟩
      rw [hlines]
      exact h.stands s' e' hset' fun f hf => hbefore' f (List.mem_cons_of_mem e hf)
  | ok lines =>
      have happlied : e ∈ (p.step s.template.startLine e).applied := by
        rw [Progress.step, hedit]
        simp
      obtain ⟨line, hline, hhead⟩ := h.stands s e hset hbefore
      obtain ⟨line', heditLine, hfront, hcomments⟩ :=
        (hunmasked happlied).exists_editLine hset hname hvalue hhead
      rw [Progress.step_eq hset.line hline heditLine]
      constructor
      · refine (commentLines_set hline ?_).trans h.comments
        rwa [openBehind_congr h.comments]
      · intro s' e' hset' hbefore'
        obtain ⟨line₀, hline₀, hhead₀⟩ := h.stands s' e' hset'
          fun f hf => hbefore' f (List.mem_cons_of_mem e hf)
        by_cases hindex : s'.index = s.index
        · have hprecedes := hbefore' e List.mem_cons_self
          have htemplates := s'.template_unique s
          have hcolumn : s'.column < s.column := by
            unfold Precedes at hprecedes
            rw [hset'.line, hset.line, hset'.column, hset.column, htemplates, hindex] at hprecedes
            omega
          have hend := Site.end_le hindex hcolumn
          refine ⟨line', ?_, ?_⟩
          · rw [hindex, List.getElem?_set_self (List.getElem?_eq_some_iff.mp hline).1]
          · refine List.IsPrefix.trans ?_ hfront
            rw [(Site.line_unique hindex).1]
            exact List.take_prefix_take_left hend
        · exact ⟨line₀, by rwa [List.getElem?_set_ne (Ne.symm hindex)], hhead₀⟩

/-- Edits from the back to the front keep all comments, if each one that is made stands at a tag
free of comments. -/
theorem faithful_backward (htemplate : section? source "template" = some template)
    (hordered : es.Pairwise Precedes) (hsites : ∀ e ∈ es, ∃ s : Site source, s.SetBy e)
    (hmarks : ∀ e ∈ es, ¬ "<!--".toList <:+: e.name ∧ '<' ∉ e.value)
    (hunmasked : ∀ e ∈ (Progress.backward template es).applied,
      ∀ s : Site source, s.SetBy e → s.Unmasked) :
    (Progress.backward template es).Faithful source template.lines es := by
  induction es with
  | nil =>
      refine ⟨rfl, fun s _ _ _ => ?_⟩
      have hraw := s.raw_eq
      rw [Option.some.inj (s.template_eq.symm.trans htemplate)] at hraw
      exact ⟨s.raw, hraw, List.take_prefix _ _⟩
  | cons e es ih =>
      rw [List.forall_mem_cons] at hsites hmarks
      obtain ⟨hbefore, hordered⟩ := List.pairwise_cons.mp hordered
      obtain ⟨⟨s, hset⟩, hsites⟩ := hsites
      rw [Progress.backward, List.foldr_cons] at hunmasked ⊢
      have hbehind := ih hordered hsites hmarks.2
        fun f hf => hunmasked f (Progress.applied_subset_step _ _ e hf)
      exact hbehind.step htemplate hset hbefore hmarks.1.1 hmarks.1.2 fun he => hunmasked e he s hset

/-- A revision keeps the comments of the template. -/
theorem revise_keeps_comments (htemplate : section? source "template" = some template)
    (hordered : es.Pairwise Precedes) (hsites : ∀ e ∈ es, ∃ s : Site source, s.SetBy e)
    (hbreaks : ∀ e ∈ es, '\n' ∉ e.name ∧ '\n' ∉ e.value)
    (hmarks : ∀ e ∈ es, ¬ "<!--".toList <:+: e.name ∧ '<' ∉ e.value)
    (hunmasked : ∀ e ∈ (revise source es).applied, ∀ s : Site source, s.SetBy e → s.Unmasked) :
    ∃ template', section? (revise source es).code "template" = some template' ∧
      commentLines false template'.lines = commentLines false template.lines := by
  by_cases hne : es = []
  · exact ⟨template, by simpa [hne, revise] using htemplate, rfl⟩
  · obtain ⟨hsection, hrevise⟩ := revise_eq htemplate hne hbreaks rfl
    rw [bottomUp_eq_reverse hordered, List.foldl_reverse] at hsection hrevise
    rw [hrevise] at hunmasked ⊢
    split at hunmasked
    · rename_i hnone
      rw [if_pos hnone]
      exact ⟨template, htemplate, rfl⟩
    · rename_i hsome
      rw [if_neg hsome]
      exact ⟨_, hsection, (faithful_backward htemplate hordered hsites hmarks hunmasked).comments⟩

end Run

/-! ## Planned edits -/

section Planned

open Plan

/-- The edits of a plan for a component stand at its elements, in their order. -/
theorem sites_of_account {config : Config} {scope : Scope} {source path : Text}
    {awards : List Award} {plan : Plan}
    (h : Account config scope (read source path).elements awards plan) :
    plan.edits.Pairwise Precedes ∧ ∀ e ∈ plan.edits, ∃ s : Site source, s.SetBy e := by
  constructor
  · have hbefore := (read_pairwise source path).sublist h.order
    rw [List.pairwise_map] at hbefore
    refine hbefore.imp_of_mem fun {a b} ha hb => ?_
    rintro ⟨place, place', hplace, hplace', hlt⟩
    obtain rfl := Option.some.inj ((h.places a ha).symm.trans hplace)
    obtain rfl := Option.some.inj ((h.places b hb).symm.trans hplace')
    exact hlt
  · intro e he
    obtain ⟨s, hshows⟩ := Site.exists_of_mem (h.order.subset (List.mem_map_of_mem he))
    have hkind : e.kind ≠ .remove := by
      rw [(h.kinds e he).2]
      split <;> simp
    exact ⟨s, hshows.setBy hkind (h.places e he)⟩

/-- No run over a component edits the text of a comment, makes a comment or ends one, if no tag
that it edits has a comment in it. What masking blanks out of the new lines is what it blanks out of
the old ones. -/
theorem process_keeps_comments (clock : ℕ) (config : Config) (component : Option Text)
    (source path : Text) (parser : Script.Parser) (hvue : Framework.forPath? path = some .vue)
    (hbreak : '\n' ∉ config.attributeName) (hmark : ¬ "<!--".toList <:+: config.attributeName)
    (template : Section) (htemplate : section? source "template" = some template) :
    let o := process (Namer.standard clock) config component source path parser
    (∀ e ∈ o.edits, ∀ s : Site source, s.SetBy e → s.Unmasked) →
      ∃ template', section? o.code "template" = some template' ∧
        commentLines false template'.lines = commentLines false template.lines ∧
        ∀ i found, (commentLines false template.lines)[i]? = some found →
          BlanksOut template.lines i found ∧ BlanksOut template'.lines i found := by
  intro o hunmasked
  suffices h : ∃ template', section? o.code "template" = some template' ∧
      commentLines false template'.lines = commentLines false template.lines by
    obtain ⟨template', htemplate', hsame⟩ := h
    refine ⟨template', htemplate', hsame, fun i found hfound => ?_⟩
    exact ⟨blanksOut_of_commentLines hfound, blanksOut_of_commentLines (hsame ▸ hfound)⟩
  obtain ⟨hsource, hkept | ⟨hsuccess, _⟩⟩ :=
    process_cases (Namer.standard clock) config component source path parser
  · exact ⟨template, by rwa [hkept.code.trans hsource], rfl⟩
  · obtain ⟨f, plan, done, hdone⟩ := process_completed hsuccess
    obtain rfl : .vue = f := Option.some.inj (hvue.symm.trans hdone.framework)
    obtain ⟨trace, htrace, hreplay⟩ := ofElements_eq_ok_iff.mp hdone.planned
    have haccount := htrace.account (Namer.standard_fresh clock)
    rw [hreplay] at haccount
    obtain ⟨hordered, hsites⟩ := sites_of_account haccount
    have hvalues : ∀ e ∈ plan.edits, ∀ c ∈ e.value, Naming.isIdChar c = true := by
      intro e he
      rw [haccount.edits] at he
      obtain ⟨a, ha, hedit⟩ := List.mem_filterMap.mp he
      rw [(Award.edit?_eq_some hedit).2.2.1]
      exact htrace.values_isIdText a ha
    have hbreaks : ∀ e ∈ plan.edits, '\n' ∉ e.name ∧ '\n' ∉ e.value := fun e he =>
      ⟨by rwa [(haccount.kinds e he).1], fun hmem => absurd (hvalues e he _ hmem) (by decide)⟩
    have hmarks : ∀ e ∈ plan.edits, ¬ "<!--".toList <:+: e.name ∧ '<' ∉ e.value := fun e he =>
      ⟨by rwa [(haccount.kinds e he).1], fun hmem => absurd (hvalues e he _ hmem) (by decide)⟩
    have hrevised : done = revise source plan.edits := by
      have hdefined := hdone.revised
      by_cases hempty : plan.edits = []
      · simpa [hempty, revise] using hdefined
      · rwa [if_neg (by simpa using hempty)] at hdefined
    have hcode : o.code = (revise source plan.edits).code := hrevised ▸ hdone.code
    have hedits : o.edits = (revise source plan.edits).applied := hrevised ▸ hdone.edits
    rw [hedits] at hunmasked
    rw [hcode]
    exact revise_keeps_comments htemplate hordered hsites hbreaks hmarks hunmasked

/-- A link between two comments gets an identifier. One comment goes on on the next line. -/
theorem process_keeps_comments_link :
    let source := "<template>\n<!--<a>--><a>y</a><!--\n<a>-->\n</template>".toList
    let path := "A.vue".toList
    let o := process (Namer.standard 0) {} none source path .bundled
    o.changed = true ∧ ∃ template', section? o.code "template" = some template' ∧
      commentLines false template'.lines =
        [(["<!--<a>-->".toList, "<!--".toList], true), (["<a>-->".toList], false)] := by
  intro source path o
  let template : Section :=
    ⟨"template".toList, 1, some 4, ["<!--<a>--><a>y</a><!--".toList, "<a>-->".toList]⟩
  let site : Site source :=
    { template, index := 0
      raw := "<!--<a>--><a>y</a><!--".toList
      masked := "          <a>y</a>    ".toList
      column := 10
      tag := { name := ['a'] }
      after := "y</a>    ".toList
      template_eq := by decide
      raw_eq := rfl
      masked_eq := by decide
      found := by decide
      unclosed := rfl }
  have hedits : ∀ e ∈ o.edits, e.position.line = 2 ∧ e.position.column = 11 := by decide +kernel
  have hunmasked : ∀ e ∈ o.edits, ∀ s : Site source, s.SetBy e → s.Unmasked := by
    intro e he s hset
    obtain ⟨hline, hcolumn⟩ := hedits e he
    have hplace := hset.line
    have hbehind := hset.column
    rw [s.template_unique site] at hplace
    obtain rfl : s = site := Site.eq_of_place
      (by simp only [site, template, Section.startLine] at hplace ⊢; omega)
      (by simp only [site]; omega)
    decide
  obtain ⟨template', htemplate', hcomments, _⟩ := process_keeps_comments 0 {} none source path
    .bundled (by decide) (by decide) (by decide) template (by decide) hunmasked
  exact ⟨by decide +kernel, template', htemplate', hcomments.trans (by decide)⟩

/-- A comment right behind the name of a tag sends the edit to a tag that is commented out. -/
theorem process_edits_comment :
    let source := "<template>\n<!-- <button> --><button<!-- x -->>Go</button>\n</template>".toList
    let path := "App.vue".toList
    let o := process (Namer.standard 0) {} none source path .bundled
    o.changed = true ∧ o.success = true ∧
      (section? source "template").map (commentLines false ·.lines) =
        some [(["<!-- <button> -->".toList, "<!-- x -->".toList], false)] ∧
      (section? o.code "template").map (commentLines false ·.lines) =
        some [(["<!-- <button data-testid=\"test-app-btn\"> -->".toList, "<!-- x -->".toList],
          false)] := by
  decide +kernel

end Planned

end MarkupIds.Sfc
