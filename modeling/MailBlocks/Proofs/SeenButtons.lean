import MailBlocks.Proofs.Sight

/-!
# What is seen of buttons

A button is seen as its text in a link. The button of a service offer has two forms: the standard
engines see its link, the legacy engine its shape, and both show the same face.

* `buttonFace`: the face of such a button.
* `sees_tableButton`: buttons that are tables.
* `sees_dualButton`: buttons in two forms.
-/

namespace MailBlocks.Email

open Markup Text

variable {e : Engine} {theme : Theme}

/-! ## Links -/

theorem lookup_map_decoded (ds : List (String × String)) (property : String) :
    (ds.map fun d => (d.1, decoded d.2)).lookup property = (ds.lookup property).map decoded := by
  induction ds with
  | nil => rfl
  | cons d ds ih =>
    rw [List.map_cons, List.lookup_cons, ih, List.lookup_cons]
    cases property == d.1 <;> rfl

/-- A tag declares what the style attribute at its end declares. -/
theorem declared?_style {as : List Attribute} {ds : List (String × String)}
    (h : CleanAttributes (as ++ [.style ds])) (has : ∀ a ∈ as, a.name ≠ "style") (name : String)
    {property : String} (hp : property ≠ "") :
    (startTag name (as ++ [.style ds])).declared? property =
      (ds.lookup property).map decoded := by
  have hnone : (as.map fun a => (a.name, a.value)).lookup "style" = none := by
    rw [List.lookup_eq_none_iff]
    intro x hx
    obtain ⟨a, ha, rfl⟩ := List.mem_map.1 hx
    simpa using Ne.symm (has a ha)
  have hstyle : (Attribute.style ds).Clean := h _ (by simp)
  have hrest : List.lookup property [("", "")] = (none : Option String) := by
    rw [List.lookup_cons, beq_eq_false_iff_ne.2 hp]
    rfl
  have hlookup : (declarations (Attribute.style ds).value).lookup property =
      (ds.lookup property).map decoded := by
    rw [declarations_style hstyle, List.lookup_append, hrest, Option.or_none, lookup_map_decoded]
  rw [Tag.declared?, startTag, List.map_append, List.lookup_append, hnone, Option.none_or]
  exact hlookup

/-- A link without a word about the legacy engine shows no face. -/
theorem anchorFace?_eq_none (as : List Attribute) (ds : List (String × String))
    (h : CleanAttributes (as ++ [.style ds])) (has : ∀ a ∈ as, a.name ≠ "style")
    (hds : ∀ d ∈ ds, d.1 ≠ "mso-hide") (label : List Char) :
    anchorFace? (startTag "a" (as ++ [.style ds])) label = none := by
  have hnone : ds.lookup "mso-hide" = none := by
    rw [List.lookup_eq_none_iff]
    intro d hd
    simpa using Ne.symm (hds d hd)
  rw [anchorFace?, declared?_style h has _ (by decide), hnone]
  rfl

theorem sees_linked (link : String) {content : List Token} (h : Sees e content .none) :
    Sees e (linked link content) ⟨[], (!blank link).toNat, [], []⟩ := by
  unfold linked
  by_cases hb : blank link
  · rw [if_pos hb, hb]
    exact h
  · rw [if_neg hb, Bool.eq_false_iff.2 hb]
    exact h.link _ fun hc => anchorFace?_eq_none
      [.plain "href" (urlAttribute link), .plain "target" "_blank"] [("text-decoration", "none")]
      hc (by simp [Attribute.name]) (by simp)

/-! ## Buttons that are tables -/

/-- A button of a table is seen as its text in a link. -/
theorem sees_tableButton (b : TableButton) :
    Sees e (tableButton theme b) ⟨unbroken b.text.toList, 1, [], []⟩ := by
  have hlink : Sees e _ ⟨unbroken b.text.toList, 1, [], []⟩ :=
    (Sees.line b.text).link _ fun hc => anchorFace?_eq_none
      [.plain "href" (urlAttribute b.link), .plain "target" "_blank"]
      [("display", "block"), ("padding", paddingOf b.paddingTop "24px" b.paddingBottom),
        ("font-family", theme.font), ("font-size", px b.fontSize), ("font-weight", "bold"),
        ("line-height", "1.2"), ("color", (Paint.of theme b.fill b.textColor).textColor),
        ("text-decoration", "none"),
        ("border-radius", (Paint.of theme b.fill b.textColor).radius)]
      hc (by simp [Attribute.name]) (by simp)
  exact ((hlink.element _ (by decide)).element _ (by decide)).element _ (by decide)

/-! ## Faces -/

theorem decoded_eq_self {s : String} (h : '&' ∉ s.toList) : decoded s = s := by
  rw [decoded, decode_eq_self h, String.ofList_toList]

theorem toList_decoded_append {s : String} (h : '&' ∉ s.toList) (t : String) :
    (decoded (s ++ t)).toList = s.toList ++ (decoded t).toList := by
  rw [decoded, String.toList_ofList, String.toList_append, decode_append_of_not_mem h, decoded,
    String.toList_ofList]

/-- The face of the button of a service offer: its link, its text, the colour of its text and how
it is filled. Outlined buttons have the colour of their border. -/
def buttonFace (theme : Theme) (b : OfferButton) : Face where
  href := decoded (urlAttribute b.link)
  label := b.text
  color :=
    decoded (styleValue (if theme.buttonStyle.isOutlined then b.background else b.textColor))
  fill :=
    if theme.buttonStyle.isOutlined then .outlined (decoded (styleValue b.background))
    else .filled (decoded (styleValue b.background))

/-- The attributes of the link of a button in two forms, before its style. -/
def dualLink (b : OfferButton) : List Attribute :=
  [.plain "href" (urlAttribute b.link), .plain "target" "_blank"]

/-- The declarations of the link of a button in two forms. -/
def dualDeclarations (theme : Theme) (b : OfferButton) : List (String × String) :=
  let paint := Paint.of theme b.background b.textColor
  [("display", "inline-block"), ("padding", paddingOf b.paddingTop "24px" b.paddingBottom),
    ("background-color", paint.background)] ++ paint.border ++
  [("border-radius", paint.radius), ("color", paint.textColor), ("font-family", theme.font),
    ("font-size", px b.fontSize), ("font-weight", "bold"), ("line-height", "1.2"),
    ("text-decoration", "none"), ("mso-hide", "all")]

section

variable (b : OfferButton)

theorem lookup_mso : (dualDeclarations theme b).lookup "mso-hide" = some "all" := by
  cases ho : theme.buttonStyle.isOutlined <;>
    simp [dualDeclarations, Paint.of, Paint.border, ho, List.lookup_cons]

theorem lookup_color : (dualDeclarations theme b).lookup "color" =
    some (styleValue (if theme.buttonStyle.isOutlined then b.background else b.textColor)) := by
  cases ho : theme.buttonStyle.isOutlined <;>
    simp [dualDeclarations, Paint.of, Paint.border, ho, List.lookup_cons]

theorem lookup_background : (dualDeclarations theme b).lookup "background-color" =
    some (if theme.buttonStyle.isOutlined then "transparent" else styleValue b.background) := by
  cases ho : theme.buttonStyle.isOutlined <;>
    simp [dualDeclarations, Paint.of, Paint.border, ho, List.lookup_cons]

theorem lookup_border : (dualDeclarations theme b).lookup "border" =
    if theme.buttonStyle.isOutlined then some ("2px solid " ++ styleValue b.background)
    else none := by
  cases ho : theme.buttonStyle.isOutlined <;>
    simp [dualDeclarations, Paint.of, Paint.border, ho, List.lookup_cons]

/-- The link shows the face of the button. -/
theorem anchorFace?_dualButton
    (h : CleanAttributes (dualLink b ++ [.style (dualDeclarations theme b)])) :
    anchorFace? (startTag "a" (dualLink b ++ [.style (dualDeclarations theme b)]))
      b.text.toList = some (buttonFace theme b) := by
  have hlink : ∀ a ∈ dualLink b, a.name ≠ "style" := by simp [dualLink, Attribute.name]
  obtain ⟨t, ht⟩ : ∃ t, t = startTag "a" (dualLink b ++ [.style (dualDeclarations theme b)]) :=
    ⟨_, rfl⟩
  have hdeclared : ∀ p, p ≠ "" →
      t.declared? p = ((dualDeclarations theme b).lookup p).map decoded :=
    fun p hp => by rw [ht, declared?_style h hlink _ hp]
  have hhref : t.value? "href" = some (decoded (urlAttribute b.link)) := by
    rw [ht]
    rfl
  have hhide : t.declared? "mso-hide" = some "all" := by
    rw [hdeclared _ (by decide), lookup_mso, Option.map_some, decoded_eq_self (by decide)]
  have hcolor : t.declared? "color" = some (buttonFace theme b).color := by
    rw [hdeclared _ (by decide), lookup_color]
    rfl
  have hfill : anchorFill? t = some (buttonFace theme b).fill := by
    rw [anchorFill?, hdeclared _ (by decide), hdeclared _ (by decide), lookup_border,
      lookup_background, buttonFace]
    cases ho : theme.buttonStyle.isOutlined with
    | false => rfl
    | true =>
      have hborder := toList_decoded_append (show '&' ∉ "2px solid ".toList by decide)
        (styleValue b.background)
      have htransparent : decoded "transparent" = "transparent" := decoded_eq_self (by decide)
      simp only [if_true, Option.map_some, htransparent, dropLead_eq_some_iff.2 hborder,
        String.ofList_toList]
  have hlabel : String.ofList b.text.toList = (buttonFace theme b).label := String.ofList_toList
  rw [← ht, anchorFace?, if_pos hhide, hhref, hcolor, hfill, hlabel]
  rfl

/-! ## Shapes -/

/-- The attributes of the shape of a button. -/
def shapeAttributes (theme : Theme) (b : OfferButton) : List Attribute :=
  let paint := Paint.of theme b.background b.textColor
  let height := shapeHeight b.paddingTop b.paddingBottom b.fontSize
  let stroke : List Attribute :=
    if paint.outlined then
      [.plain "strokecolor" paint.fill, .plain "strokeweight" "2px", .plain "filled" "f"]
    else [.plain "stroke" "f", .plain "fillcolor" paint.fill]
  .plain "xmlns:v" "urn:schemas-microsoft-com:vml" ::
    .plain "xmlns:w" "urn:schemas-microsoft-com:office:word" ::
    .plain "href" (urlAttribute b.link) ::
    .style [("height", pxNat height), ("v-text-anchor", "middle"), ("width", pxNat shapeWidth)] ::
    .plain "arcsize" (Number.decimal (arcSize paint.radius height) ++ "%") :: stroke

/-- The declarations of the label of a shape. -/
def labelDeclarations (theme : Theme) (b : OfferButton) : List (String × String) :=
  [("color", (Paint.of theme b.background b.textColor).textColor), ("font-family", theme.font),
    ("font-size", px b.fontSize), ("font-weight", "bold")]

/-- What stands in the shape of a button. -/
def shapeContent (theme : Theme) (b : OfferButton) : List Token :=
  [Token.newline, Token.empty "w:anchorlock" [], Token.newline] ++
    element "center" [.style (labelDeclarations theme b)] (line b.text) ++ [Token.newline]

/-- What the content of a shape is read as, from its label. -/
def labelled (center : Tag) (label : List Node) : List Node :=
  [Node.char '\n', Node.element ⟨.empty, "w:anchorlock", []⟩ [], Node.char '\n'] ++
    [Node.element center label] ++ [Node.char '\n']

theorem shows_labelled {center : Tag} {label : List Node} {x : Sight}
    (hn : center.name = "center") (h : Shows label x) : Shows (labelled center label) x := by
  have hlock : Shows [.element ⟨.empty, "w:anchorlock", []⟩ []] .none :=
    Shows.nil.element (by decide) (by decide)
  have hcenter : Shows [.element center label] x :=
    h.element (by rw [hn]; decide) (by rw [hn]; decide)
  have hall := (((Shows.newline.append hlock).append Shows.newline).append hcenter).append
    Shows.newline
  simp only [Sight.none_append, Sight.append_none] at hall
  exact hall

theorem shapeFill?_shapeAttributes :
    shapeFill? (startTag "v:roundrect" (shapeAttributes theme b)) =
      some (buttonFace theme b).fill := by
  have hf : decoded "f" = "f" := decoded_eq_self (by decide)
  have hwidth : decoded "2px" = "2px" := decoded_eq_self (by decide)
  cases ho : theme.buttonStyle.isOutlined <;>
    simp [shapeFill?, startTag, shapeAttributes, Tag.value?, Paint.of, buttonFace, ho,
      Attribute.name, Attribute.value, List.lookup_cons, hf, hwidth]

/-- The shape shows the face of the button. -/
theorem shapeFace?_labelled {label : List Node}
    (h : CleanAttributes [.style (labelDeclarations theme b)])
    (hl : decode (textOf label) = b.text.toList) :
    shapeFace? (startTag "v:roundrect" (shapeAttributes theme b))
      (labelled (startTag "center" [.style (labelDeclarations theme b)]) label) =
      some (buttonFace theme b) := by
  have hhref : (startTag "v:roundrect" (shapeAttributes theme b)).value? "href" =
      some (decoded (urlAttribute b.link)) := rfl
  have hfirst : ∀ t : Tag, t.name = "center" →
      first? "center" (labelled t label) = some (t, label) := by
    intro t ht
    simp [first?, labelled, ht]
  have hpaint : (Paint.of theme b.background b.textColor).textColor =
      styleValue (if theme.buttonStyle.isOutlined then b.background else b.textColor) := by
    rw [Paint.of]
    cases theme.buttonStyle.isOutlined <;> rfl
  have hcolor : (startTag "center" [.style (labelDeclarations theme b)]).declared? "color" =
      some (buttonFace theme b).color := by
    have hdeclared := @declared?_style [] (labelDeclarations theme b) h (by simp) "center" "color"
      (by decide)
    rw [labelDeclarations, hpaint] at hdeclared
    rw [labelDeclarations, hpaint]
    exact hdeclared
  rw [shapeFace?, hhref, hfirst _ rfl]
  simp only [Option.bind_eq_bind, Option.bind_some, hcolor, shapeFill?_shapeAttributes, hl,
    String.ofList_toList]
  rfl

/-- **The shape of a button is seen** as its text, with the face of the button. -/
theorem sees_shape :
    Sees e (element "v:roundrect" (shapeAttributes theme b) (shapeContent theme b))
      ⟨unbroken b.text.toList, 0, [], [some (buttonFace theme b)]⟩ := by
  intro hc
  obtain ⟨-, -, hcontent⟩ := (allClean_element _ _ _).1 hc
  have hlabel : CleanAttributes [.style (labelDeclarations theme b)] := by
    have hcenter := (allClean_append.1 (allClean_append.1 hcontent).1).2
    exact ((allClean_element _ _ _).1 hcenter).2.1
  have hread : Reads e (shapeContent theme b) (labelled _ _) :=
    (((Reads.newline.append (Reads.empty "w:anchorlock" [])).append Reads.newline).append
      ((Reads.text (elementContent b.text)).element "center" _)).append Reads.newline
  have hname : (startTag "center" [.style (labelDeclarations theme b)]).name = "center" := rfl
  have hshape := (shows_labelled hname (shows_elementContent b.text)).shape
    (t := startTag "v:roundrect" (shapeAttributes theme b)) rfl
  rw [shapeFace?_labelled b hlabel (decode_textOf_elementContent b.text)] at hshape
  exact ⟨_, hread.element "v:roundrect" (shapeAttributes theme b), hshape⟩

end

/-! ## Buttons in two forms -/

/-- The sight of a button in two forms. -/
def dualSight (e : Engine) (face : Face) (label : List Char) : Sight :=
  match e with
  | .standard => ⟨label, 1, [face], []⟩
  | .legacy => ⟨label, 0, [], [some face]⟩

/-- **A button in two forms is seen in one of them**, with the same text and the same face. -/
theorem sees_dualButton (b : OfferButton) :
    Sees e (dualButton theme b)
      (dualSight e (buttonFace theme b) (unbroken b.text.toList)) := by
  have hlink : Sees e (element "a" (dualLink b ++ [.style (dualDeclarations theme b)])
      (line b.text)) ((Sight.ofText b.text.toList).link (buttonFace theme b)) :=
    Sees.link_line b.text _ fun hc => anchorFace?_dualButton b hc
  have hshape : Sees e (element "v:roundrect" (shapeAttributes theme b) (shapeContent theme b)) _ :=
    sees_shape b
  have hlegacy := Sees.hiddenFrom .standard (by rfl)
    ((Sees.newline.append hshape).append Sees.newline)
  have hmodern := Sees.hiddenFrom .legacy (by rfl)
    ((Sees.newline.append hlink).append Sees.newline)
  have hall := (hlegacy.append Sees.newline).append hmodern
  simp only [Sight.none_append, Sight.append_none] at hall
  cases e with
  | standard => exact hall
  | legacy =>
    rw [if_pos (rfl : Engine.legacy = .legacy), Sight.append_none] at hall
    exact hall

end MailBlocks.Email
