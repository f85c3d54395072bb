import MailBlocks.Proofs.Nesting

/-!
# What a reader sees

Of a forest, a reader sees the text between its tags, the links, and the shapes that the legacy
engine draws. Of a button in two forms, the link and the shape show a face: where it leads, its
label, and how it is painted.

* `visible`: text with its references read and without line breaks.
* `anchorFace?`, `shapeFace?`: the faces that the two forms of a button show.
* `Sees`: what an engine lets a reader see of some tokens.
* `Sees.lines`: a text of several lines is seen as it was authored.
-/

namespace MailBlocks.Markup

open Email MergeField Text

/-! ## Forests -/

mutual

/-- The characters of a node that stand outside tags. -/
def Node.text : Node → List Char
  | .char c => [c]
  | .element _ children => textOf children

/-- **The text of a forest**: what is left of it without its tags. -/
def textOf : List Node → List Char
  | [] => []
  | n :: ns => n.text ++ textOf ns

end

mutual

/-- The elements of a node, outer ones first, each with its tag and what it contains. -/
def Node.elements : Node → List (Tag × List Node)
  | .char _ => []
  | .element t children => (t, children) :: elementsOf children

/-- **The elements of a forest** in the order of their tags. -/
def elementsOf : List Node → List (Tag × List Node)
  | [] => []
  | n :: ns => n.elements ++ elementsOf ns

end

/-- The elements of a forest with a name. -/
def named (name : String) (ns : List Node) : List (Tag × List Node) :=
  (elementsOf ns).filter fun x => x.1.name = name

theorem textOf_append (ms ns : List Node) : textOf (ms ++ ns) = textOf ms ++ textOf ns := by
  induction ms with
  | nil => rfl
  | cons m ms ih => rw [List.cons_append, textOf, textOf, ih, List.append_assoc]

theorem textOf_chars (s : List Char) : textOf (s.map .char) = s := by
  induction s with
  | nil => rfl
  | cons c s ih =>
    rw [List.map_cons, textOf, ih]
    rfl

theorem elementsOf_append (ms ns : List Node) :
    elementsOf (ms ++ ns) = elementsOf ms ++ elementsOf ns := by
  induction ms with
  | nil => rfl
  | cons m ms ih => rw [List.cons_append, elementsOf, elementsOf, ih, List.append_assoc]

theorem elementsOf_chars (s : List Char) : elementsOf (s.map .char) = [] := by
  induction s with
  | nil => rfl
  | cons c s ih => exact ih

theorem textOf_element (t : Tag) (ns : List Node) : textOf [.element t ns] = textOf ns := by
  rw [textOf, Node.text, textOf, List.append_nil]

theorem elementsOf_element (t : Tag) (ns : List Node) :
    elementsOf [.element t ns] = (t, ns) :: elementsOf ns := by
  rw [elementsOf, Node.elements, elementsOf, List.append_nil]

theorem named_append (name : String) (ms ns : List Node) :
    named name (ms ++ ns) = named name ms ++ named name ns := by
  rw [named, elementsOf_append, List.filter_append, named, named]

theorem named_chars (name : String) (s : List Char) : named name (s.map .char) = [] := by
  rw [named, elementsOf_chars, List.filter_nil]

theorem named_element_self (t : Tag) (ns : List Node) :
    named t.name [.element t ns] = (t, ns) :: named t.name ns := by
  rw [named, elementsOf_element, List.filter_cons_of_pos (by simp), named]

theorem named_element_of_ne {t : Tag} {name : String} (h : t.name ≠ name) (ns : List Node) :
    named name [.element t ns] = named name ns := by
  rw [named, elementsOf_element, List.filter_cons_of_neg (by simpa using h), named]

/-! ## Visible text -/

/-- Some characters without the breaks of lines. -/
def unbroken (s : List Char) : List Char :=
  s.filter fun c => c ≠ '\r' && c ≠ '\n'

/-- **Visible text**: its references read, and without the breaks of lines. -/
def visible (s : List Char) : List Char :=
  unbroken (decode s)

theorem unbroken_append (s t : List Char) : unbroken (s ++ t) = unbroken s ++ unbroken t :=
  List.filter_append s t

/-- Escaped text is visible as the text that it was made from, whatever follows. -/
theorem visible_escaped (s r : List Char) :
    visible (s.flatMap contentChar ++ r) = unbroken s ++ visible r := by
  rw [visible, readsBack_contentChar.decode_append, unbroken_append, visible]

/-- So is text without references. -/
theorem visible_append_of_not_mem {s : List Char} (h : '&' ∉ s) (r : List Char) :
    visible (s ++ r) = unbroken s ++ visible r := by
  rw [visible, decode_append_of_not_mem h, unbroken_append, visible]

/-! ## The faces of a button -/

/-- How a button is filled: with a colour, or not at all, with a border of two pixels. -/
inductive Fill where
  | filled (color : String)
  | outlined (color : String)
  deriving DecidableEq, Repr

/-- **The face of a button.** -/
structure Face where
  href : String
  label : String
  color : String
  fill : Fill
  deriving DecidableEq, Repr

/-- The value of an attribute, with its references read. -/
def Tag.value? (t : Tag) (name : String) : Option String :=
  (t.attributes.lookup name).map decoded

/-- What the style attribute declares for a property. -/
def Tag.declared? (t : Tag) (property : String) : Option String :=
  (t.attributes.lookup "style").bind fun v => (declarations v).lookup property

/-- How a link is filled: with its background, or with a transparent one inside a border. -/
def anchorFill? (t : Tag) : Option Fill :=
  match t.declared? "border" with
  | none => (t.declared? "background-color").map .filled
  | some border =>
    if t.declared? "background-color" = some "transparent" then
      (dropLead "2px solid ".toList border.toList).map fun c => .outlined (String.ofList c)
    else none

/-- **The face that a link shows**, if it is one that the legacy engine is told to hide. -/
def anchorFace? (t : Tag) (label : List Char) : Option Face :=
  if t.declared? "mso-hide" = some "all" then do
    let href ← t.value? "href"
    let color ← t.declared? "color"
    let fill ← anchorFill? t
    some ⟨href, String.ofList label, color, fill⟩
  else none

/-- How a shape is filled: with a colour and without a stroke, or not at all inside a stroke. -/
def shapeFill? (t : Tag) : Option Fill :=
  match t.value? "filled" with
  | none => if t.value? "stroke" = some "f" then (t.value? "fillcolor").map .filled else none
  | some filled =>
    if filled = "f" ∧ t.value? "strokeweight" = some "2px" then
      (t.value? "strokecolor").map .outlined
    else none

/-- The first element with a name among some nodes. -/
def first? (name : String) (ns : List Node) : Option (Tag × List Node) :=
  ns.findSome? fun
    | .element t children => if t.name = name then some (t, children) else none
    | .char _ => none

/-- **The face that a shape shows**: its label stands in an element of its own, and its references
are read. -/
def shapeFace? (t : Tag) (children : List Node) : Option Face := do
  let href ← t.value? "href"
  let (center, label) ← first? "center" children
  let color ← center.declared? "color"
  let fill ← shapeFill? t
  some ⟨href, String.ofList (decode (textOf label)), color, fill⟩

/-- The number of links. -/
def linkCount (ns : List Node) : Nat :=
  (named "a" ns).length

/-- The faces of the links that the legacy engine is told to hide. Their labels are what they
contain, with its references read. -/
def anchorFaces (ns : List Node) : List Face :=
  (named "a" ns).filterMap fun (t, children) => anchorFace? t (decode (textOf children))

/-- The faces of the shapes. -/
def shapeFaces (ns : List Node) : List (Option Face) :=
  (named "v:roundrect" ns).map fun (t, children) => shapeFace? t children

/-! ## Sights -/

/-- **What a reader sees**: text without breaks of lines, the number of links, the faces of those
that are one form of two, and the faces of shapes. -/
structure Sight where
  text : List Char
  links : Nat
  faces : List Face
  shapes : List (Option Face)
  deriving DecidableEq, Repr

namespace Sight

/-- Nothing to see. -/
def none : Sight := ⟨[], 0, [], []⟩

/-- Text alone. -/
def ofText (s : List Char) : Sight := ⟨unbroken s, 0, [], []⟩

/-- One sight after another. -/
def append (x y : Sight) : Sight :=
  ⟨x.text ++ y.text, x.links + y.links, x.faces ++ y.faces, x.shapes ++ y.shapes⟩

instance : Append Sight := ⟨append⟩

/-- The sight of a link, which shows a face or none. -/
def link (x : Sight) (face : Option Face) : Sight :=
  { x with links := x.links + 1, faces := face.toList ++ x.faces }

theorem append_def (x y : Sight) :
    x ++ y =
      ⟨x.text ++ y.text, x.links + y.links, x.faces ++ y.faces, x.shapes ++ y.shapes⟩ := rfl

@[simp]
theorem none_append (x : Sight) : none ++ x = x := by
  simp [append_def, none]

@[simp]
theorem append_none (x : Sight) : x ++ none = x := by
  simp [append_def, none]

theorem ofText_append (s t : List Char) : ofText (s ++ t) = ofText s ++ ofText t := by
  simp [append_def, ofText, unbroken_append]

theorem ofText_nil : ofText [] = none := rfl

end Sight

/-- **A forest shows a sight**, and its text does so whatever text follows. -/
structure Shows (ns : List Node) (x : Sight) : Prop where
  text : ∀ r, visible (textOf ns ++ r) = x.text ++ visible r
  links : linkCount ns = x.links
  faces : anchorFaces ns = x.faces
  shapes : shapeFaces ns = x.shapes

namespace Shows

variable {ms ns : List Node} {x y : Sight}

theorem visible_textOf (h : Shows ns x) : visible (textOf ns) = x.text := by
  have htext := h.text []
  rwa [List.append_nil, show visible [] = [] from rfl, List.append_nil] at htext

theorem nil : Shows [] .none :=
  ⟨fun _ => rfl, rfl, rfl, rfl⟩

theorem append (hx : Shows ms x) (hy : Shows ns y) : Shows (ms ++ ns) (x ++ y) where
  text r := by rw [textOf_append, List.append_assoc, hx.text, hy.text, ← List.append_assoc]; rfl
  links := by
    rw [linkCount, named_append, List.length_append, ← linkCount, ← linkCount, hx.links, hy.links]
    rfl
  faces := by
    rw [anchorFaces, named_append, List.filterMap_append, ← anchorFaces, ← anchorFaces, hx.faces,
      hy.faces]
    rfl
  shapes := by
    rw [shapeFaces, named_append, List.map_append, ← shapeFaces, ← shapeFaces, hx.shapes,
      hy.shapes]
    rfl

/-- Characters show text. -/
theorem chars {s w : List Char} (h : ∀ r, visible (s ++ r) = unbroken w ++ visible r) :
    Shows (s.map .char) (.ofText w) where
  text r := by rw [textOf_chars, h]; rfl
  links := by rw [linkCount, named_chars]; rfl
  faces := by rw [anchorFaces, named_chars]; rfl
  shapes := by rw [shapeFaces, named_chars]; rfl

theorem newline : Shows [.char '\n'] .none :=
  chars (s := ['\n']) (w := []) fun _ => rfl

/-- An element that is neither link nor shape shows what it contains. -/
theorem element (h : Shows ns x) {t : Tag} (ha : t.name ≠ "a") (hv : t.name ≠ "v:roundrect") :
    Shows [.element t ns] x where
  text r := by rw [textOf_element, h.text]
  links := by rw [linkCount, named_element_of_ne ha, ← linkCount, h.links]
  faces := by rw [anchorFaces, named_element_of_ne ha, ← anchorFaces, h.faces]
  shapes := by rw [shapeFaces, named_element_of_ne hv, ← shapeFaces, h.shapes]

/-- A link shows what it contains, and a face if it has one. -/
theorem link (h : Shows ns x) {t : Tag} (ha : t.name = "a") :
    Shows [.element t ns] (x.link (anchorFace? t (decode (textOf ns)))) where
  text r := by rw [textOf_element, h.text]; rfl
  links := by
    rw [linkCount, ← ha, named_element_self, List.length_cons, ha, ← linkCount, h.links]
    rfl
  faces := by
    rw [anchorFaces, ← ha, named_element_self, ha, List.filterMap_cons, ← anchorFaces, h.faces]
    dsimp only
    cases anchorFace? t (decode (textOf ns)) <;> rfl
  shapes := by
    have hv : t.name ≠ "v:roundrect" := by rw [ha]; decide
    rw [shapeFaces, named_element_of_ne hv, ← shapeFaces, h.shapes]
    rfl

/-- A shape shows what it contains, and its face. -/
theorem shape (h : Shows ns x) {t : Tag} (hv : t.name = "v:roundrect") :
    Shows [.element t ns] { x with shapes := shapeFace? t ns :: x.shapes } where
  text r := by rw [textOf_element, h.text]
  links := by
    have ha : t.name ≠ "a" := by rw [hv]; decide
    rw [linkCount, named_element_of_ne ha, ← linkCount, h.links]
  faces := by
    have ha : t.name ≠ "a" := by rw [hv]; decide
    rw [anchorFaces, named_element_of_ne ha, ← anchorFaces, h.faces]
  shapes := by
    rw [shapeFaces, ← hv, named_element_self, hv, List.map_cons, ← shapeFaces, h.shapes]

end Shows

/-- Escaped text is read as the text that it was made from. -/
theorem decode_textOf_elementContent (s : String) :
    decode (textOf ((elementContent s).toList.map .char)) = s.toList := by
  have hread := readsBack_contentChar.decode_append s.toList []
  rw [List.append_nil] at hread
  rw [textOf_chars, toList_elementContent, hread]
  exact List.append_nil _

theorem shows_elementContent (s : String) :
    Shows ((elementContent s).toList.map .char) (.ofText s.toList) :=
  Shows.chars fun r => by rw [toList_elementContent, visible_escaped]

/-- **What an engine lets a reader see of some tokens**, if they are clean. -/
def Sees (e : Engine) (ts : List Token) (x : Sight) : Prop :=
  AllClean ts → ∃ ns, Reads e ts ns ∧ Shows ns x

namespace Sees

variable {e : Engine} {xs ys : List Token} {x y : Sight}

theorem nil : Sees e [] .none := fun _ => ⟨[], Reads.nil, Shows.nil⟩

theorem append (hx : Sees e xs x) (hy : Sees e ys y) : Sees e (xs ++ ys) (x ++ y) := by
  intro hc
  obtain ⟨hcx, hcy⟩ := allClean_append.1 hc
  obtain ⟨ms, hms, hmx⟩ := hx hcx
  obtain ⟨ns, hns, hny⟩ := hy hcy
  exact ⟨ms ++ ns, hms.append hns, hmx.append hny⟩

/-- Texts are seen one after the other. -/
theorem append_text {s t : List Char} (hx : Sees e xs (.ofText s)) (hy : Sees e ys (.ofText t)) :
    Sees e (xs ++ ys) (.ofText (s ++ t)) := by
  rw [Sight.ofText_append]
  exact hx.append hy

/-- Links without a text are seen alike before what else is seen and after it. -/
theorem links_append {n : Nat} (hx : Sees e xs ⟨[], n, [], []⟩) (hy : Sees e ys y) :
    Sees e (xs ++ ys) { y with links := y.links + n } := by
  have hall := hx.append hy
  rw [Sight.append_def, Nat.add_comm] at hall
  exact hall

theorem append_links {n : Nat} (hx : Sees e xs x) (hy : Sees e ys ⟨[], n, [], []⟩) :
    Sees e (xs ++ ys) { x with links := x.links + n } := by
  have hall := hx.append hy
  simp only [Sight.append_def, List.append_nil] at hall
  exact hall

theorem flatMap {α : Type} {f : α → List Token} {sight : α → List Char} {l : List α}
    (h : ∀ a ∈ l, Sees e (f a) (.ofText (sight a))) :
    Sees e (l.flatMap f) (.ofText (l.flatMap sight)) := by
  induction l with
  | nil => exact nil
  | cons a l ih =>
    obtain ⟨ha, hl⟩ := List.forall_mem_cons.1 h
    rw [List.flatMap_cons, List.flatMap_cons]
    exact ha.append_text (ih hl)

/-- Text is seen as what its references make of it. -/
theorem text {s : String} {w : List Char}
    (h : ∀ r, visible (s.toList ++ r) = unbroken w ++ visible r) :
    Sees e [.text s] (.ofText w) :=
  fun _ => ⟨_, Reads.text s, Shows.chars h⟩

theorem plainText {s : String} (h : '&' ∉ s.toList) : Sees e [.text s] (.ofText s.toList) :=
  text (visible_append_of_not_mem h)

theorem newline : Sees e [Token.newline] .none := plainText (by decide)

/-- Escaped text is seen as it was authored. -/
theorem line (s : String) : Sees e (Markup.line s) (.ofText s.toList) :=
  fun _ => ⟨_, Reads.text (elementContent s), shows_elementContent s⟩

theorem empty (name : String) (attributes : List Attribute)
    (h : name ≠ "a" ∧ name ≠ "v:roundrect") : Sees e [.empty name attributes] .none :=
  fun _ => ⟨_, Reads.empty name attributes, Shows.nil.element h.1 h.2⟩

theorem lineBreak : Sees e [.lineBreak] .none :=
  fun _ => ⟨_, Reads.lineBreak, Shows.nil.element (by decide) (by decide)⟩

theorem element (h : Sees e xs x) {name : String} (attributes : List Attribute)
    (hn : name ≠ "a" ∧ name ≠ "v:roundrect") : Sees e (Markup.element name attributes xs) x := by
  intro hc
  obtain ⟨-, -, hcontent⟩ := (allClean_element name attributes xs).1 hc
  obtain ⟨ns, hns, hx⟩ := h hcontent
  exact ⟨_, hns.element name attributes, hx.element hn.1 hn.2⟩

/-- A link that shows no face is seen as what it contains. -/
theorem link (h : Sees e xs x) (attributes : List Attribute)
    (hf : CleanAttributes attributes →
      ∀ label, anchorFace? (startTag "a" attributes) label = none) :
    Sees e (Markup.element "a" attributes xs) (x.link none) := by
  intro hc
  obtain ⟨-, hattributes, hcontent⟩ := (allClean_element "a" attributes xs).1 hc
  obtain ⟨ns, hns, hx⟩ := h hcontent
  refine ⟨_, hns.element "a" attributes, ?_⟩
  rw [← hf hattributes (decode (textOf ns))]
  exact hx.link rfl

/-- A link around escaped text is seen with the face that its attributes give to the text. -/
theorem link_line (s : String) (attributes : List Attribute) {face : Option Face}
    (hf : CleanAttributes attributes →
      anchorFace? (startTag "a" attributes) s.toList = face) :
    Sees e (Markup.element "a" attributes (Markup.line s)) ((Sight.ofText s.toList).link face) := by
  intro hc
  obtain ⟨-, hattributes, -⟩ := (allClean_element "a" attributes (Markup.line s)).1 hc
  have hread : Reads e (Markup.line s) _ := Reads.text (elementContent s)
  have hlink := (shows_elementContent s).link (t := startTag "a" attributes) rfl
  rw [decode_textOf_elementContent, hf hattributes] at hlink
  exact ⟨_, hread.element "a" attributes, hlink⟩

/-- What is hidden from one engine is seen by the other. -/
theorem hiddenFrom (f : Engine) (ht : xs.all Token.isContent) (h : Sees e xs x) :
    Sees e (f.hideToken :: xs ++ [f.showToken]) (if e = f then .none else x) := by
  intro hc
  have hcontent : AllClean xs := (allClean_cons.1 (allClean_append.1 hc).1).2
  obtain ⟨ns, hns, hx⟩ := h hcontent
  refine ⟨_, hns.hiddenFrom f ht, ?_⟩
  split
  · exact Shows.nil
  · exact hx

end Sees

/-! ## Texts of several lines -/

theorem splitAt_append_of_not_mem {sep : Char} {s : List Char} (h : sep ∉ s) {r p : List Char}
    {ps : List (List Char)} (hr : splitAt sep r = p :: ps) :
    splitAt sep (s ++ r) = (s ++ p) :: ps := by
  induction s with
  | nil => exact hr
  | cons c s ih =>
    simp only [List.mem_cons, not_or] at h
    rw [List.cons_append, splitAt, if_neg (Ne.symm h.1), ih h.2]
    rfl

theorem newline_not_mem_contentChar {c : Char} (h : c ≠ '\n') : '\n' ∉ contentChar c := by
  intro hmem
  rcases mem_contentChar hmem with ⟨hc, -⟩ | ⟨name, hname, hd⟩
  · exact h hc.symm
  · have hreferences : ∀ name ∈ references, '\n' ∉ name.toList := by decide
    exact hreferences name hname hd

/-- Escaping goes over each line of a text. -/
theorem splitAt_flatMap_contentChar (s : List Char) :
    splitAt '\n' (s.flatMap contentChar) = (splitAt '\n' s).map (List.flatMap contentChar) := by
  induction s with
  | nil => rfl
  | cons c s ih =>
    obtain ⟨p, ps, hs⟩ := List.exists_cons_of_ne_nil (splitAt_ne_nil '\n' s)
    rw [hs, List.map_cons] at ih
    rw [List.flatMap_cons]
    by_cases hc : c = '\n'
    · subst hc
      have hbreak : contentChar '\n' = ['\n'] := rfl
      rw [hbreak, List.singleton_append, splitAt, if_pos rfl, ih, splitAt, if_pos rfl, hs]
      rfl
    · rw [splitAt_append_of_not_mem (newline_not_mem_contentChar hc) ih, splitAt, if_neg hc, hs]
      rfl

/-- The lines of a text, one after the other, are the text without its line feeds. -/
theorem flatten_splitAt (sep : Char) (s : List Char) :
    (splitAt sep s).flatten = s.filter (· ≠ sep) := by
  induction s with
  | nil => rfl
  | cons c s ih =>
    obtain ⟨p, ps, hs⟩ := List.exists_cons_of_ne_nil (splitAt_ne_nil sep s)
    rw [hs, List.flatten_cons] at ih
    rw [splitAt]
    by_cases hc : c = sep
    · rw [if_pos hc, hs, List.filter_cons_of_neg (by simpa using hc), ← ih]
      rfl
    · rw [if_neg hc, hs, List.filter_cons_of_pos (by simpa using hc), ← ih]
      rfl

theorem unbroken_unixLines (s : List Char) : unbroken (unixLines s) = unbroken s := by
  induction s using unixLines.induct with
  | case1 s ih => rw [unixLines]; exact ih
  | case2 c s hne ih =>
    have hcons : unixLines (c :: s) = [c] ++ unixLines s := by
      rw [unixLines, List.singleton_append]
      exact hne
    rw [hcons, unbroken_append, ih, ← unbroken_append, List.singleton_append]
  | case3 => rfl

/-- Lines are seen one after the other, without the breaks between them. -/
theorem Sees.intersperse {e : Engine} (ps : List (List Char)) :
    Sees e ((ps.map fun p => Token.text (String.ofList (p.flatMap contentChar))).intersperse
      .lineBreak) (.ofText ps.flatten) := by
  have hline : ∀ p : List Char, Sees e [.text (String.ofList (p.flatMap contentChar))] (.ofText p) :=
    fun p => Sees.text fun r => by rw [String.toList_ofList, visible_escaped]
  induction ps with
  | nil => exact Sees.nil
  | cons p ps ih =>
    rw [List.flatten_cons, Sight.ofText_append]
    cases ps with
    | nil =>
      rw [List.flatten_nil, Sight.ofText_nil, Sight.append_none]
      exact hline p
    | cons q ps =>
      have hrest := (hline p).append (Sees.lineBreak.append ih)
      rw [Sight.none_append] at hrest
      exact hrest

/-- **A text of several lines is seen as it was authored.** -/
theorem Sees.lines {e : Engine} (s : String) : Sees e (Markup.lines s) (.ofText s.toList) := by
  have hseen := Sees.intersperse (e := e) (splitAt '\n' (unixLines s.toList))
  have htext : Sight.ofText (splitAt '\n' (unixLines s.toList)).flatten = .ofText s.toList := by
    have hunbroken : unbroken ((unixLines s.toList).filter (· ≠ '\n')) = unbroken s.toList := by
      rw [← unbroken_unixLines s.toList, unbroken, unbroken, List.filter_filter]
      exact List.filter_congr fun c _ => by cases decide (c = '\n') <;> simp_all
    rw [flatten_splitAt, Sight.ofText, hunbroken, Sight.ofText]
  have hlines : Markup.lines s = ((splitAt '\n' (unixLines s.toList)).map fun p =>
      Token.text (String.ofList (p.flatMap contentChar))).intersperse .lineBreak := by
    rw [Markup.lines, mapPlain_eq_flatMap fun c => contentChar_eq_self, splitAt_flatMap_contentChar,
      List.map_map]
    rfl
  rw [hlines, ← htext]
  exact hseen

end MailBlocks.Markup
