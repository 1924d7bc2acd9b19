import MarkupIds.Proofs.Script.Spans

/-!
# The parts of an opening tag

Behind its bracket an opening tag holds nodes and comments, one behind the other, with nothing but
blanks between them. The tree of a script keeps the nodes and forgets the comments.
-/

namespace MarkupIds.Script

/-! ## Blanks and comments -/

/-- Nothing but blanks stands from offset `i` up to `j`. -/
def Blank (source : Text) (i j : ℕ) : Prop :=
  i ≤ j ∧ ((source.take j).drop i).all isGap = true

instance (source : Text) (i j : ℕ) : Decidable (Blank source i j) :=
  inferInstanceAs (Decidable (i ≤ j ∧ ((source.take j).drop i).all isGap = true))

/-- A comment starts at an offset. -/
def CommentAt (source : Text) (i : ℕ) : Prop :=
  "//".toList <+: source.drop i ∨ "/*".toList <+: source.drop i

instance (source : Text) (i : ℕ) : Decidable (CommentAt source i) :=
  inferInstanceAs (Decidable ("//".toList <+: source.drop i ∨ "/*".toList <+: source.drop i))

namespace Blank

variable {source : Text} {i j k : ℕ}

theorem refl (source : Text) (i : ℕ) : Blank source i i :=
  ⟨Nat.le_refl i, by simp⟩

theorem trans (hij : Blank source i j) (hjk : Blank source j k) : Blank source i k := by
  have hsplit : (source.take k).drop i =
      (source.take j).drop i ++ (source.take k).drop j := by
    have hdrop : ((source.take k).drop i).drop (j - i) = (source.take k).drop j := by
      rw [List.drop_drop, Nat.add_sub_cancel' hij.1]
    have htake : ((source.take k).drop i).take (j - i) = (source.take j).drop i := by
      rw [← List.drop_take, List.take_take, min_eq_left hjk.1]
    rw [← hdrop, ← htake, List.take_append_drop]
  refine ⟨hij.1.trans hjk.1, ?_⟩
  rw [hsplit, List.all_append, hij.2, hjk.2]
  rfl

theorem of_drop_eq {c : Char} {cs : Text} (h : source.drop i = c :: cs) (hc : isGap c = true) :
    Blank source i (i + 1) := by
  refine ⟨Nat.le_succ i, ?_⟩
  rw [List.drop_take, h]
  simpa using hc

end Blank

theorem isGap_of_isLineBreak {c : Char} (h : isLineBreak c = true) : isGap c = true := by
  have hcode : c.toNat = 10 ∨ c.toNat = 13 ∨ c.toNat = 0x2028 ∨ c.toNat = 0x2029 := by
    simp only [isLineBreak, Bool.or_eq_true, beq_iff_eq] at h
    rcases h with ((rfl | rfl) | h) | h <;> simp_all
  simp only [isGap, Text.isBlank, Bool.or_eq_true, Bool.and_eq_true, Bool.not_eq_true',
    Bool.and_eq_false_iff, beq_iff_eq, decide_eq_true_eq, decide_eq_false_iff_not]
  omega

theorem commentAt_of_drop_eq {source : Text} {i : ℕ} {c mark : Char} {cs : Text}
    (h : source.drop i = c :: cs) (hmark : mark = '/' ∨ mark = '*')
    (hopens : (c == '/' && cs.head? == some mark) = true) : CommentAt source i := by
  simp only [Bool.and_eq_true, beq_iff_eq] at hopens
  obtain ⟨rfl, hhead⟩ := hopens
  obtain ⟨rest, rfl⟩ := List.head?_eq_some_iff.mp hhead
  rw [CommentAt, h]
  rcases hmark with rfl | rfl
  · exact .inl ⟨rest, rfl⟩
  · exact .inr ⟨rest, rfl⟩

theorem drop_succ_of_drop_eq {source : Text} {i : ℕ} {c : Char} {cs : Text}
    (h : source.drop i = c :: cs) : source.drop (i + 1) = cs := by
  rw [← List.drop_drop, h]
  rfl

/-! ## Parts one behind the other -/

/-- A part of an opening tag: a node of the tree, or a comment, which the tree leaves out. -/
inductive TagPart where
  | node (n : Node)
  | comment (start stop : ℕ)

namespace TagPart

def start : TagPart → ℕ
  | .node n => n.start
  | .comment start _ => start

def stop : TagPart → ℕ
  | .node n => n.stop
  | .comment _ stop => stop

def node? : TagPart → Option Node
  | .node n => some n
  | .comment _ _ => none

/-- The part has a span; that of a comment starts with its mark. -/
def Stands (source : Text) : TagPart → Prop
  | .node n => n.start ≤ n.stop
  | .comment start stop => start < stop ∧ CommentAt source start

theorem Stands.start_le_stop {source : Text} {p : TagPart} (h : p.Stands source) :
    p.start ≤ p.stop := by
  cases p with
  | node n => exact h
  | comment start stop => exact h.1.le

end TagPart

/-- The parts stand one behind the other from offset `i` up to `j`, with blanks between them. -/
inductive Tiles (source : Text) : ℕ → List TagPart → ℕ → Prop where
  | nil {i j} : Blank source i j → Tiles source i [] j
  | cons {i p ps j} : Blank source i p.start → p.Stands source → Tiles source p.stop ps j →
      Tiles source i (p :: ps) j

namespace Tiles

variable {source : Text} {i j k : ℕ} {p : TagPart} {ps qs : List TagPart}

theorem le (h : Tiles source i ps j) : i ≤ j := by
  induction h with
  | nil hblank => exact hblank.1
  | cons hblank hstands _ ih => exact (hblank.1.trans hstands.start_le_stop).trans ih

theorem after_blank (hblank : Blank source i j) (h : Tiles source j ps k) :
    Tiles source i ps k := by
  cases h with
  | nil hrest => exact .nil (hblank.trans hrest)
  | cons hrest hstands htail => exact .cons (hblank.trans hrest) hstands htail

theorem append (hps : Tiles source i ps j) (hqs : Tiles source j qs k) :
    Tiles source i (ps ++ qs) k := by
  induction hps with
  | nil hblank => exact hqs.after_blank hblank
  | cons hblank hstands _ ih => exact .cons hblank hstands (ih hqs)

theorem cons_comment (hlt : i < j) (hat : CommentAt source i) (h : Tiles source j ps k) :
    Tiles source i (.comment i j :: ps) k :=
  .cons (.refl source i) ⟨hlt, hat⟩ h

theorem split (h : Tiles source i (ps ++ qs) k) :
    ∃ j, Tiles source i ps j ∧ Tiles source j qs k := by
  induction ps generalizing i with
  | nil => exact ⟨i, .nil (.refl source i), h⟩
  | cons p ps ih =>
      cases h with
      | cons hblank hstands htail =>
          obtain ⟨j, hps, hqs⟩ := ih htail
          exact ⟨j, .cons hblank hstands hps, hqs⟩

/-- Every part lies between the two offsets. -/
theorem bounds (h : Tiles source i ps j) (hp : p ∈ ps) :
    i ≤ p.start ∧ p.Stands source ∧ p.stop ≤ j := by
  induction h with
  | nil _ => exact absurd hp List.not_mem_nil
  | cons hblank hstands htail ih =>
      rcases List.mem_cons.mp hp with rfl | hp
      · exact ⟨hblank.1, hstands, htail.le⟩
      · obtain ⟨hstart, hp, hstop⟩ := ih hp
        exact ⟨(hblank.1.trans hstands.start_le_stop).trans hstart, hp, hstop⟩

end Tiles

/-! ## The blanks in front of a token -/

/-- The stretch that a scan of blanks is in started at `start`: it starts with the next character,
or it is the comment under way. -/
def BlankState.Since (n start : ℕ) : BlankState → Prop
  | .code => start = n
  | .line | .closing => start < n
  | .opening s | .block s => start = s ∧ s < n

theorem blanksFrom_le {state : BlankState} {n start : ℕ} {cs : Text}
    (h : state.Since n start) : blanksFrom state n cs ≤ n + cs.length := by
  have hstep : ∀ (c : Char) (cs : Text) (n : ℕ), n + 1 + cs.length = n + (c :: cs).length :=
    fun c cs n => by rw [List.length_cons]; omega
  fun_induction blanksFrom state n cs generalizing start with
  | case1 s n | case2 s n => exact h.2.le
  | case3 | case7 => exact Nat.le_add_right _ _
  | case4 n c cs _ ih | case12 n c cs ih =>
      rw [← hstep]
      exact @ih (n + 1) rfl
  | case5 n c cs _ _ ih =>
      rw [← hstep]
      exact @ih n (Nat.lt_succ_self n)
  | case6 n c cs _ _ _ ih =>
      rw [← hstep]
      exact @ih n ⟨rfl, Nat.lt_succ_self n⟩
  | case8 n c cs ih =>
      rw [← hstep]
      by_cases hbreak : isLineBreak c = true
      · rw [if_pos hbreak] at ih ⊢
        exact @ih (n + 1) rfl
      · rw [if_neg hbreak] at ih ⊢
        exact ih (Nat.lt_succ_of_lt h)
  | case9 s n c cs ih | case11 s n c cs _ ih =>
      rw [← hstep]
      exact ih ⟨h.1, Nat.lt_succ_of_lt h.2⟩
  | case10 s n c cs _ ih =>
      rw [← hstep]
      exact @ih s (Nat.lt_succ_of_lt h.2)

/-- What a scan of blanks passes over is blanks and comments. -/
theorem exists_tiles_blanksFrom {source : Text} {base : ℕ} {state : BlankState} {n start : ℕ}
    {cs : Text} (hrest : source.drop (base + n) = cs) (hsince : state.Since n start)
    (hcomment : start < n → CommentAt source (base + start)) :
    ∃ ps, ps.filterMap TagPart.node? = [] ∧
      Tiles source (base + start) ps (base + blanksFrom state n cs) := by
  fun_induction blanksFrom state n cs generalizing start with
  | case1 s n | case2 s n =>
      -- A block comment that is never closed is none.
      obtain ⟨rfl, _⟩ := hsince
      exact ⟨[], rfl, .nil (.refl source _)⟩
  | case3 state n hopening hblock =>
      cases state with
      | code =>
          obtain rfl : start = n := hsince
          exact ⟨[], rfl, .nil (.refl source _)⟩
      | line | closing =>
          have hlt : start < n := hsince
          exact ⟨[.comment (base + start) (base + n)], rfl,
            .cons_comment (by omega) (hcomment hlt) (.nil (.refl source _))⟩
      | opening s => exact absurd rfl (hopening s)
      | block s => exact absurd rfl (hblock s)
  | case4 n c cs hgap ih =>
      obtain rfl : start = n := hsince
      obtain ⟨ps, hnone, htiles⟩ := ih (drop_succ_of_drop_eq hrest) rfl (by omega)
      exact ⟨ps, hnone, htiles.after_blank (.of_drop_eq hrest hgap)⟩
  | case5 n c cs _ hopens ih =>
      obtain rfl : start = n := hsince
      exact ih (drop_succ_of_drop_eq hrest) (Nat.lt_succ_self _)
        fun _ => commentAt_of_drop_eq hrest (.inl rfl) hopens
  | case6 n c cs _ _ hopens ih =>
      obtain rfl : start = n := hsince
      exact ih (drop_succ_of_drop_eq hrest) ⟨rfl, Nat.lt_succ_self _⟩
        fun _ => commentAt_of_drop_eq hrest (.inr rfl) hopens
  | case7 n c cs _ _ _ =>
      obtain rfl : start = n := hsince
      exact ⟨[], rfl, .nil (.refl source _)⟩
  | case8 n c cs ih =>
      have hlt : start < n := hsince
      have hnext := drop_succ_of_drop_eq hrest
      by_cases hbreak : isLineBreak c = true
      · -- The end of the line is a blank behind the comment.
        rw [if_pos hbreak] at ih ⊢
        obtain ⟨ps, hnone, htiles⟩ := @ih (n + 1) hnext rfl (by omega)
        have hblank := Blank.of_drop_eq hrest (isGap_of_isLineBreak hbreak)
        exact ⟨.comment (base + start) (base + n) :: ps, hnone,
          .cons_comment (by omega) (hcomment hlt) (htiles.after_blank hblank)⟩
      · rw [if_neg hbreak] at ih ⊢
        exact ih hnext (Nat.lt_succ_of_lt hlt) fun _ => hcomment hlt
  | case9 s n c cs ih | case11 s n c cs _ ih =>
      obtain ⟨rfl, hlt⟩ := hsince
      exact ih (drop_succ_of_drop_eq hrest) ⟨rfl, Nat.lt_succ_of_lt hlt⟩ fun _ => hcomment hlt
  | case10 s n c cs _ ih =>
      obtain ⟨rfl, hlt⟩ := hsince
      exact ih (drop_succ_of_drop_eq hrest) (Nat.lt_succ_of_lt hlt) fun _ => hcomment hlt
  | case12 n c cs ih =>
      have hlt : start < n := hsince
      obtain ⟨ps, hnone, htiles⟩ := @ih (n + 1) (drop_succ_of_drop_eq hrest) rfl (by omega)
      exact ⟨.comment (base + start) (base + (n + 1)) :: ps, hnone,
        .cons_comment (by omega) (hcomment hlt) htiles⟩

namespace Place

/-- The place is one of the source. -/
structure At (source : Text) (p : Place) : Prop where
  pos_le : p.pos ≤ source.length
  rest_eq : source.drop p.pos = p.rest

theorem At.advance {source : Text} {p : Place} (h : p.At source) (n : ℕ) :
    (p.advance n).At source := by
  have hlength : p.rest.length = source.length - p.pos := by rw [← h.rest_eq, List.length_drop]
  have hle := h.pos_le
  constructor
  · simp only [Place.advance, List.length_take]
    omega
  · simp only [Place.advance, List.length_take, ← List.drop_drop, h.rest_eq]
    rcases Nat.le_total n p.rest.length with hn | hn
    · rw [min_eq_left hn]
    · rw [min_eq_right hn, List.drop_length, List.drop_eq_nil_of_le hn]

theorem At.skipBlanks {source : Text} {p : Place} (h : p.At source) : p.skipBlanks.At source :=
  h.advance _

/-- In front of a token stand blanks and comments. -/
theorem At.exists_tiles {source : Text} {p : Place} (h : p.At source) :
    ∃ ps, ps.filterMap TagPart.node? = [] ∧ Tiles source p.pos ps p.skipBlanks.pos := by
  have hstart : BlankState.Since 0 0 .code := rfl
  have hle : blankLength p.rest ≤ 0 + p.rest.length := blanksFrom_le hstart
  rw [Nat.zero_add] at hle
  rw [Place.skipBlanks, p.pos_advance hle]
  have hrest : source.drop (p.pos + 0) = p.rest := h.rest_eq
  exact exists_tiles_blanksFrom hrest hstart (by omega)

end Place

/-! ## Forms that make parts -/

section Runs

variable {ρ : Type} {grammar : ρ → Form ρ} {source : Text} {form : Form ρ} {p q : Place}
  {ns : List Node}

theorem Fits.at (h : Fits grammar form p ns q) (hp : p.At source) : q.At source := by
  induction h with
  | empty | look | none | absent => exact hp
  | token _ => exact hp.skipBlanks.advance _
  | glued _ => exact hp.advance _
  | seq _ _ iha ihb | more _ _ iha ihb => exact ihb (iha hp)
  | node _ ih => exact ih hp.skipBlanks
  | rule _ ih | left _ ih | right _ ih | nodeHere _ ih | only _ ih | within _ ih => exact ih hp

/-- Between blanks and comments the form takes nothing but nodes. -/
inductive Form.Tiled (grammar : ρ → Form ρ) : Form ρ → Prop where
  | empty : Tiled grammar .empty
  | absent {a} : Tiled grammar (.absent a)
  | rule {r} : Tiled grammar (grammar r) → Tiled grammar (.rule r)
  | seq {a b} : Tiled grammar a → Tiled grammar b → Tiled grammar (.seq a b)
  | alt {a b} : Tiled grammar a → Tiled grammar b → Tiled grammar (.alt a b)
  | many {a} : Tiled grammar a → Tiled grammar (.many a)
  | only {accepts a} : Tiled grammar a → Tiled grammar (.only accepts a)
  | node {k a} : Tiled grammar (.node k a)

/-- The nodes of such a form and the comments around them are all that stands there. -/
theorem Fits.exists_tiles (h : Fits grammar form p ns q) (hform : form.Tiled grammar)
    (hp : p.At source) :
    ∃ ps, ps.filterMap TagPart.node? = ns ∧ Tiles source p.pos ps q.pos := by
  induction h with
  | empty | none | absent => exact ⟨[], rfl, .nil (.refl source _)⟩
  | token _ | glued _ | look | nodeHere _ _ | within _ _ => cases hform
  | rule _ ih =>
      cases hform with
      | rule hform => exact ih hform hp
  | seq ha _ iha ihb =>
      cases hform with
      | seq hforma hformb =>
          obtain ⟨ps, rfl, hps⟩ := iha hforma hp
          obtain ⟨qs, rfl, hqs⟩ := ihb hformb (ha.at hp)
          exact ⟨ps ++ qs, List.filterMap_append, hps.append hqs⟩
  | left _ ih =>
      cases hform with
      | alt hform _ => exact ih hform hp
  | right _ ih =>
      cases hform with
      | alt _ hform => exact ih hform hp
  | more ha _ iha ihmore =>
      cases hform with
      | many hforma =>
          obtain ⟨ps, rfl, hps⟩ := iha hforma hp
          obtain ⟨qs, rfl, hqs⟩ := ihmore (.many hforma) (ha.at hp)
          exact ⟨ps ++ qs, List.filterMap_append, hps.append hqs⟩
  | @node k a p ns q ha _ =>
      -- The node starts behind the blanks and comments in front of it.
      obtain ⟨ps, hnone, hps⟩ := hp.exists_tiles
      have hstands : (TagPart.node (.mk k p.skipBlanks.pos q.pos ns)).Stands source := ha.pos_le
      refine ⟨ps ++ [.node (.mk k p.skipBlanks.pos q.pos ns)], ?_, ?_⟩
      · rw [List.filterMap_append, hnone]
        rfl
      · exact hps.append (.cons (.refl source _) hstands (.nil (.refl source _)))
  | only _ ih =>
      cases hform with
      | only hform => exact ih hform hp

/-! ## Elements and their bodies -/

/-- Every element that the form makes itself has the form `body` inside. -/
def Form.ElementsBy (body : Form ρ) : Form ρ → Prop
  | .seq a b | .alt a b => ElementsBy body a ∧ ElementsBy body b
  | .many a | .only _ a | .within _ a => ElementsBy body a
  | .node k a => ElementsBy body a ∧ (k = .element → a = body)
  | .nodeHere k a => ElementsBy body a ∧ k ≠ .element
  | _ => True

theorem Form.elementsBy_of_elementFree {body a : Form ρ} (h : a.elementFree = true) :
    ElementsBy body a := by
  induction a with
  | empty | token | glued | look | rule | absent => trivial
  | seq a b iha ihb | alt a b iha ihb =>
      rw [elementFree, Bool.and_eq_true] at h
      exact ⟨iha h.1, ihb h.2⟩
  | many a ih | only _ a ih | within _ a ih => exact ih h
  | node k a ih =>
      rw [elementFree, Bool.and_eq_true, bne_iff_ne] at h
      exact ⟨ih h.2, fun hkind => absurd hkind h.1⟩
  | nodeHere k a ih =>
      rw [elementFree, Bool.and_eq_true, bne_iff_ne] at h
      exact ⟨ih h.2, h.1⟩

theorem Fits.exists_body {body : Form ρ} (hgrammar : ∀ r, Form.ElementsBy body (grammar r))
    (h : Fits grammar form p ns q) (hform : Form.ElementsBy body form) (hp : p.At source) :
    ∀ n ∈ Node.elementsOf ns, ∃ p q, p.At source ∧ Fits grammar body p n.children q := by
  induction h with
  | empty | look | none | absent | token _ | glued _ => simp [Node.elementsOf]
  | rule _ ih => exact ih (hgrammar _) hp
  | seq ha _ iha ihb =>
      rw [Node.elementsOf_append, List.forall_mem_append]
      exact ⟨iha hform.1 hp, ihb hform.2 (ha.at hp)⟩
  | left _ ih => exact ih hform.1 hp
  | right _ ih => exact ih hform.2 hp
  | more ha _ iha ihmore =>
      rw [Node.elementsOf_append, List.forall_mem_append]
      exact ⟨iha hform hp, ihmore hform (ha.at hp)⟩
  | @node k a p ns q ha ih =>
      rw [Node.elementsOf_singleton]
      refine Node.forall_mem_elements (fun hkind => ⟨_, q, hp.skipBlanks, ?_⟩)
        (ih hform.1 hp.skipBlanks)
      rw [← hform.2 hkind]
      exact ha
  | nodeHere _ ih =>
      rw [Node.elementsOf_singleton]
      exact Node.forall_mem_elements (fun hkind => absurd hkind hform.2) (ih hform.1 hp)
  | only _ ih | within _ ih => exact ih hform hp

end Runs

/-! ## Opening tags of scripts -/

/-- The parts of an opening tag in its source. -/
structure LaidOut (source : Text) (opening : Node) (parts : List TagPart) : Prop where
  children_eq : opening.children = parts.filterMap TagPart.node?
  tiles : ∃ i j, Tiles source i parts j ∧ j ≤ source.length

namespace Shape

open Form

/-- What stands in front of the closing bracket of an opening tag. -/
def tagParts : Shape := mark "<" ++ tagName ++ many markupAttribute

/-- The inside of an element. -/
def tagged : Shape :=
  (node .opening tagParts ++ (mark "/>" <|> (mark ">" ++ many child ++ closingTag))) <|>
    (node .opening (mark "<") ++ (typed (mark "/>") <|> (mark ">" ++ many child ++ closingTag)))

theorem element_elementsBy : ElementsBy tagged element :=
  ⟨elementsBy_of_elementFree rfl, fun _ => rfl⟩

end Shape

theorem grammar_elementsBy (s : Symbol) : Form.ElementsBy Shape.tagged (grammar s) := by
  cases s with
  | element => exact Shape.element_elementsBy
  | _ => exact Form.elementsBy_of_elementFree (by decide +kernel)

theorem tagName_tiled : Shape.tagName.Tiled grammar := by
  have harguments : (Form.opt (.typed (.node .typeArguments (the .typeArguments)))).Tiled grammar :=
    .alt (.only .node) .empty
  exact .alt (.seq (.seq .node .absent) harguments)
    (.alt (.seq (.seq .node .absent) harguments) .node)

theorem markupAttribute_tiled : Shape.markupAttribute.Tiled grammar :=
  .alt .node (.rule .node)

/-- Behind its bracket a tag holds nothing but nodes, comments and blanks. -/
theorem Fits.exists_tiles_of_tagParts {source : Text} {p q : Place} {ns : List Node}
    (h : Fits grammar Shape.tagParts p ns q) (hp : p.At source) :
    ∃ i parts, ns = parts.filterMap TagPart.node? ∧ Tiles source i parts q.pos := by
  cases h with
  | seq h hattributes =>
      cases h with
      | @seq _ _ _ _ behind _ _ hbracket hname =>
          have hbehind := hbracket.at hp
          obtain ⟨ps, hps, hnames⟩ := hname.exists_tiles tagName_tiled hbehind
          obtain ⟨qs, hqs, hattrs⟩ :=
            hattributes.exists_tiles (.many markupAttribute_tiled) (hname.at hbehind)
          cases hbracket with
          | token _ =>
              refine ⟨_, ps ++ qs, ?_, hnames.append hattrs⟩
              rw [List.filterMap_append, hps, hqs, List.nil_append]

/-- An element starts with its opening tag, and the tag is laid out in the source. -/
theorem Fits.exists_laidOut {source : Text} {p q : Place} {ns : List Node}
    (h : Fits grammar Shape.tagged p ns q) (hp : p.At source) :
    ∃ opening rest parts, ns = opening :: rest ∧ opening.kind = .opening ∧
      LaidOut source opening parts := by
  cases h with
  | left h =>
      cases h with
      | seq hopening hrest =>
          cases hopening with
          | @node _ _ _ children _ hparts =>
              obtain ⟨i, parts, hchildren, htiles⟩ :=
                hparts.exists_tiles_of_tagParts hp.skipBlanks
              exact ⟨_, _, parts, rfl, rfl, hchildren, i, _, htiles,
                (hparts.at hp.skipBlanks).pos_le⟩
  | right h =>
      cases h with
      | seq hopening hrest =>
          cases hopening with
          | node hbracket =>
              cases hbracket with
              | token _ =>
                  have hempty : Tiles source 0 [] 0 := .nil (.refl source 0)
                  exact ⟨_, _, [], rfl, rfl, rfl, 0, 0, hempty, Nat.zero_le _⟩

/-- Every element of a script has an opening tag that is laid out in its source. -/
theorem parse?_laidOut {dialect : Dialect} {source : Text} {tree : List Node}
    (h : parse? dialect source = some tree) :
    ∀ n ∈ Node.elementsOf tree, ∃ opening parts, n.opening? = some opening ∧
      LaidOut source opening parts := by
  obtain ⟨_, hfits, _⟩ := exists_fits_of_parse? h
  intro n hn
  have hscript : Form.ElementsBy Shape.tagged Shape.script :=
    Form.elementsBy_of_elementFree (by decide +kernel)
  obtain ⟨p, q, hp, hbody⟩ :=
    hfits.exists_body grammar_elementsBy hscript ⟨Nat.zero_le _, rfl⟩ n hn
  obtain ⟨opening, rest, parts, hchildren, hkind, hlaid⟩ := hbody.exists_laidOut hp
  refine ⟨opening, parts, ?_, hlaid⟩
  rw [Node.opening?, hchildren, List.find?_cons_of_pos (by simp [hkind])]

namespace Parser

theorem bundled_opens : bundled.Opens := by
  intro dialect source tree h
  obtain ⟨ns, hns, rfl⟩ := exists_bundled h
  rw [Node.elementsOf_mapOffsetsOf]
  refine List.forall_mem_map.mpr fun n hn => ?_
  obtain ⟨opening, _, hopening, _⟩ := parse?_laidOut hns n hn
  rw [Node.opening?_mapOffsets, hopening]
  rfl

theorem bundled_laidOut {source path : Text} {tree : List Node}
    (h : bundled.tree? source path = some tree) :
    ∀ n ∈ Node.elementsOf tree, ∃ opening parts, n.opening? = some opening ∧
      LaidOut source opening parts := by
  obtain ⟨dialect, hparse⟩ := exists_of_bundled_tree? h
  exact parse?_laidOut hparse

end Parser

end MarkupIds.Script
