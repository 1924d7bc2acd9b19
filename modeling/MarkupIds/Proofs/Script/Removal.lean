import MarkupIds.Proofs.Script.Overwrite
import MarkupIds.Proofs.Script.Tag

/-!
# What an edit takes out of a tag

An edit that sets an attribute takes the old one and nothing else. One that removes an attribute
takes everything from the node in front of it, and with it the comments that stand between them.
-/

namespace MarkupIds.Script

/-! ## The splice of an edit -/

/-- Two nodes of a tag, one right behind the other, have nothing but comments between them. -/
theorem exists_comments_between {parts : List TagPart} {front back : List Node} {a b : Node}
    (h : parts.filterMap TagPart.node? = front ++ a :: b :: back) :
    ∃ before comments behind, parts = before ++ .node a :: (comments ++ .node b :: behind) ∧
      before.filterMap TagPart.node? = front ∧ comments.filterMap TagPart.node? = [] := by
  have hnode : ∀ {p : TagPart} {n : Node}, p.node? = some n → p = .node n := by
    rintro (m | _) n hp
    · rw [Option.some.inj hp]
    · cases hp
  obtain ⟨before, rest, rfl, hbefore, hrest⟩ := List.filterMap_eq_append_iff.mp h
  obtain ⟨skipped, p, rest, rfl, hskipped, hp, hrest⟩ := List.filterMap_eq_cons_iff.mp hrest
  obtain ⟨comments, q, behind, rfl, hcomments, hq, _⟩ := List.filterMap_eq_cons_iff.mp hrest
  rw [hnode hp, hnode hq]
  refine ⟨before ++ skipped, comments, behind, by simp, ?_, List.filterMap_eq_nil_iff.mpr hcomments⟩
  rw [List.filterMap_append, List.filterMap_eq_nil_iff.mpr hskipped, List.append_nil, hbefore]

/-- What the splice of an edit can be in a tag with comments. -/
theorem spliceFor_parts {source : Text} {opening : Node} {parts : List TagPart} {e : Edit}
    {s : Splice} (hchildren : opening.children = parts.filterMap TagPart.node?)
    (h : spliceFor source opening e = .ok s) :
    s.start = s.stop ∧ (∀ n ∈ opening.children, n.isNamed source e.name = false) ∨
      ∃ front previous comments n back,
        parts = front ++ .node previous :: (comments ++ .node n :: back) ∧
        comments.filterMap TagPart.node? = [] ∧ n.isNamed source e.name = true ∧
        (∀ m ∈ (front ++ [.node previous]).filterMap TagPart.node?,
          m.isNamed source e.name = false) ∧
        (e.kind = .remove ∧ s = ⟨previous.stop, n.stop, []⟩ ∨
          e.kind ≠ .remove ∧ s = ⟨n.start, n.stop, renderAttribute e.name e.value⟩) := by
  rcases spliceFor_cases h with
    ⟨last, _, rfl, hnone⟩ | ⟨nodes, previous, n, rest, hnodes, hn, hfirst, hs⟩
  · exact .inl ⟨rfl, hnone⟩
  · obtain ⟨front, comments, back, hparts, rfl, hcomments⟩ :=
      exists_comments_between (hchildren.symm.trans hnodes)
    refine .inr ⟨front, previous, comments, n, back, hparts, hcomments, hn, ?_, hs⟩
    rw [List.filterMap_append]
    exact hfirst

/-! ## What a splice spares -/

/-- The splice takes nothing of the part. -/
def TagPart.SparedBy (s : Splice) (p : TagPart) : Prop :=
  p.stop ≤ s.start ∨ s.stop ≤ p.start

instance (s : Splice) (p : TagPart) : Decidable (p.SparedBy s) :=
  inferInstanceAs (Decidable (p.stop ≤ s.start ∨ s.stop ≤ p.start))

/-- What the splice takes is the node, with blanks in front of it. -/
def TakesOnly (source : Text) (n : Node) (s : Splice) : Prop :=
  Blank source s.start n.start ∧ s.stop = n.stop

/-- The stretches of a tag from the node in front of an attribute on. -/
structure Around (source : Text) (front : List TagPart) (previous : Node)
    (comments : List TagPart) (n : Node) (back : List TagPart) : Prop where
  front_stop : ∀ p ∈ front, p.stop ≤ previous.start
  previous_stands : previous.start ≤ previous.stop
  tiles : Tiles source previous.stop comments n.start
  stands : n.start ≤ n.stop
  back_start : ∀ p ∈ back, n.stop ≤ p.start
  stop_le : n.stop ≤ source.length

theorem Tiles.around {source : Text} {i j : ℕ} {front comments back : List TagPart}
    {previous n : Node}
    (h : Tiles source i (front ++ .node previous :: (comments ++ .node n :: back)) j)
    (hj : j ≤ source.length) : Around source front previous comments n back := by
  obtain ⟨_, hfront, hrest⟩ := h.split
  cases hrest with
  | cons hblank hprevious hrest =>
      obtain ⟨_, hcomments, hrest⟩ := hrest.split
      cases hrest with
      | cons hgap hn hback =>
          have hbetween := hcomments.append (.nil hgap)
          rw [List.append_nil] at hbetween
          exact ⟨fun p hp => (hfront.bounds hp).2.2.trans hblank.1, hprevious, hbetween, hn,
            fun p hp => (hback.bounds hp).1, hback.le.trans hj⟩

/-- A splice that takes all from the node in front of an attribute to the end of the attribute
spares the comments between them only if there are none. -/
theorem Around.spares_iff {source : Text} {front comments back : List TagPart} {previous n : Node}
    (h : Around source front previous comments n back)
    (hcomments : comments.filterMap TagPart.node? = []) {s : Splice}
    (hstart : s.start = previous.stop) (hstop : s.stop = n.stop) :
    (TakesOnly source n s ∧ ∀ c ∈ comments, c.SparedBy s) ↔ comments = [] := by
  constructor
  · rintro ⟨_, hspared⟩
    cases comments with
    | nil => rfl
    | cons c comments =>
        obtain ⟨hafter, hstands, hbefore⟩ := h.tiles.bounds (p := c) (by simp)
        cases c with
        | node m => simp [TagPart.node?] at hcomments
        | comment start stop =>
            -- A comment is not empty, so no span around it leaves it out.
            have hlt : start < stop := hstands.1
            have hn := h.stands
            have hspared := hspared _ (List.mem_cons_self ..)
            simp only [TagPart.SparedBy, TagPart.start, TagPart.stop] at hspared hafter hbefore
            omega
  · rintro rfl
    cases h.tiles with
    | nil hblank => exact ⟨⟨hstart ▸ hblank, hstop⟩, by simp⟩

/-- An edit that finds its attribute spares all parts of the tag but the attribute and the comments
right in front of it. Those are spared too, and only blanks go with the attribute, unless the edit
removes it from behind such comments. -/
theorem spliceFor_spares_iff {source : Text} {opening : Node} {parts : List TagPart} {e : Edit}
    {s : Splice} (hlaid : LaidOut source opening parts) (h : spliceFor source opening e = .ok s) :
    s.start = s.stop ∧ (∀ n ∈ opening.children, n.isNamed source e.name = false) ∨
      ∃ front previous comments n back,
        parts = front ++ .node previous :: (comments ++ .node n :: back) ∧
        comments.filterMap TagPart.node? = [] ∧ n.isNamed source e.name = true ∧
        (∀ m ∈ (front ++ [.node previous]).filterMap TagPart.node?,
          m.isNamed source e.name = false) ∧
        (∀ p ∈ front ++ .node previous :: back, p.SparedBy s) ∧
        ((TakesOnly source n s ∧ ∀ c ∈ comments, c.SparedBy s) ↔
          (e.kind = .remove → comments = [])) := by
  obtain ⟨i, j, htiles, hj⟩ := hlaid.tiles
  rcases spliceFor_parts hlaid.children_eq h with
    hinsertion | ⟨front, previous, comments, n, back, rfl, hcomments, hn, hfirst, hs⟩
  · exact .inl hinsertion
  · have haround := htiles.around hj
    refine .inr ⟨front, previous, comments, n, back, rfl, hcomments, hn, hfirst, ?_, ?_⟩
    · have hprevious : previous.stop ≤ s.start := by
        rcases hs with ⟨_, rfl⟩ | ⟨_, rfl⟩
        · exact le_rfl
        · exact haround.tiles.le
      have hstop : s.stop = n.stop := by
        rcases hs with ⟨_, rfl⟩ | ⟨_, rfl⟩ <;> rfl
      intro p hp
      rcases List.mem_append.mp hp with hp | hp
      · exact .inl (((haround.front_stop p hp).trans haround.previous_stands).trans hprevious)
      · rcases List.mem_cons.mp hp with rfl | hp
        · exact .inl hprevious
        · exact .inr (hstop.trans_le (haround.back_start p hp))
    · rcases hs with ⟨hremove, rfl⟩ | ⟨hkind, rfl⟩
      · rw [haround.spares_iff hcomments rfl rfl]
        exact ⟨fun h _ => h, fun h => h hremove⟩
      · refine iff_of_true ⟨⟨.refl source _, rfl⟩, fun c hc => .inl ?_⟩ (fun h => absurd h hkind)
        exact (haround.tiles.bounds hc).2.2

/-! ## An attribute behind a comment -/

def commented : Text := "<a /* c */ x=\"1\" />".toList

def commentedName : Node := .mk .tagName 1 2 []

def commentedAttribute : Node :=
  .mk .attribute 11 16 [.mk .attributeName 11 12 [], .mk .string 13 16 []]

def commentedTag : Node := .mk .opening 0 16 [commentedName, commentedAttribute]

def commentedParts : List TagPart :=
  [.node commentedName, .comment 3 10, .node commentedAttribute]

theorem laidOut_commented : LaidOut commented commentedTag commentedParts := by
  refine ⟨rfl, 1, 16, ?_, by decide⟩
  refine .cons (by decide) (by decide : (1 : ℕ) ≤ 2) ?_
  refine .cons (by decide) ⟨by decide, by decide⟩ ?_
  exact .cons (by decide) (by decide : (11 : ℕ) ≤ 16) (.nil (by decide))

/-- An edit of a link at the start of a script. -/
def firstEdit (kind : EditKind) (name value : Text) : Edit :=
  ⟨kind, { tag := ['a'] }, name, value, ⟨1, 1, 0⟩⟩

/-- An attribute that is set behind a comment leaves the comment alone. -/
theorem spliceFor_spares_iff_modify :
    let e := firstEdit .modify ['x'] ['2']
    ∃ s, LaidOut commented commentedTag commentedParts ∧
      spliceFor commented commentedTag e = .ok s ∧ s.start ≠ s.stop ∧
      ∃ n, TakesOnly commented n s ∧ ∀ p ∈ commentedParts, p = .node n ∨ p.SparedBy s := by
  intro e
  have hsplice : spliceFor commented commentedTag e = .ok ⟨11, 16, "x=\"2\"".toList⟩ := by decide
  refine ⟨_, laidOut_commented, hsplice, by decide, ?_⟩
  rcases spliceFor_spares_iff laidOut_commented hsplice with
    ⟨hempty, _⟩ | ⟨front, previous, comments, n, back, hparts, _, _, _, hspared, hiff⟩
  · exact absurd hempty (by decide)
  · obtain ⟨htakes, hcomments⟩ := hiff.mpr fun hremove => absurd hremove (by decide)
    refine ⟨n, htakes, fun p hp => ?_⟩
    rw [hparts] at hp
    simp only [List.mem_append, List.mem_cons] at hp hspared
    rcases hp with hp | hp | hp | hp | hp
    · exact .inr (hspared p (.inl hp))
    · exact .inr (hspared p (.inr (.inl hp)))
    · exact .inr (hcomments p hp)
    · exact .inl hp
    · exact .inr (hspared p (.inr (.inr hp)))

/-- An attribute that is removed from behind a comment takes the comment along. -/
theorem removal_takes_comment :
    let e := firstEdit .remove ['x'] []
    ∃ s, LaidOut commented commentedTag commentedParts ∧
      spliceFor commented commentedTag e = .ok s ∧
      .comment 3 10 ∈ commentedParts ∧ ¬ (TagPart.comment 3 10).SparedBy s ∧
      revise commented [e] "A.jsx".toList = { code := "<a />".toList, applied := [e] } := by
  intro e
  exact ⟨⟨2, 16, []⟩, laidOut_commented, by decide, by simp [commentedParts], by decide,
    by decide +kernel⟩

end MarkupIds.Script
