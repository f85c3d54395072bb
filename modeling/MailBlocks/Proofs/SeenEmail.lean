import MailBlocks.Proofs.NestedEmail

/-!
# What is seen of an email

Whoever reads an email reads what was authored, block by block. Of every button, an engine sees one
form: the button of a service offer is a link for the standard engines and a shape for the legacy
engine, and both show the same face.

* `visible_contentRows_render`: the text of the rows.
* `links_contentRows_render`: the links and the shapes of the rows.
-/

namespace MailBlocks.Email

open Markup

variable {e : Engine} {theme : Theme}

/-- What the content table contains shows the document. -/
theorem shows_contentRows (e : Engine) (d : Document) (s : DesignSettings) :
    ∃ rows, contentRows? e (render d s) = some rows ∧
      Shows rows (tableSight e (.ofSettings s) d) := by
  obtain ⟨forest, rows, hforest, hpath, hshows, -⟩ := contentRows_tokens e d s
  refine ⟨rows, ?_, hshows⟩
  rw [contentRows?, hforest]
  exact hpath

/-- **The reader reads what was authored**, in its order: whatever engine shows the email, the text
of the rows is that of the blocks, without the breaks of lines. -/
theorem visible_contentRows_render (e : Engine) (d : Document) (s : DesignSettings)
    (h : ∃ b ∈ d.blocks, b.content.hasRow (.ofSettings s)) :
    (contentRows? e (render d s)).map (fun rows => visible (textOf rows)) =
      some (unbroken d.visibleText) := by
  obtain ⟨rows, hrows, hshows⟩ := shows_contentRows e d s
  have hcount : d.count (Content.hasRow (.ofSettings s)) ≠ 0 :=
    Nat.pos_iff_ne_zero.1 (List.countP_pos_iff.2 h)
  have htext : (d.sight e (.ofSettings s)).text = unbroken d.visibleText := by cases e <;> rfl
  rw [tableSight, if_neg hcount] at hshows
  rw [hrows, Option.map_some, hshows.visible_textOf, htext]

/-- A document with a heading of two lines and a block of an unknown kind. -/
def greeting : Document :=
  ⟨[⟨"1", .header { TextBlock.heading with text := "Fish & chips\nfor {{name}}" }⟩,
    ⟨"2", .unknown "video"⟩]⟩

/-- The heading is read without the break of its lines, its escaped characters as authored. -/
theorem visible_contentRows_render_greeting :
    (∃ b ∈ greeting.blocks, b.content.hasRow (.ofSettings .standard)) ∧
      (contentRows? .standard (render greeting .standard)).map (fun rows => visible (textOf rows)) =
        some "Fish & chipsfor {{name}}".toList := by
  have h : ∃ b ∈ greeting.blocks, b.content.hasRow (.ofSettings .standard) :=
    ⟨_, List.mem_cons_self, by decide⟩
  exact ⟨h, visible_contentRows_render .standard greeting .standard h⟩

/-- Nothing is seen of a block without a row. -/
theorem sight_of_not_hasRow {c : Content} (h : c.hasRow theme = false) :
    c.sight e theme = .none := by
  rcases seesRow_rowsOf e theme c with ⟨-, hx⟩ | ⟨attributes, content, hr, -⟩
  · exact hx
  · have hnil : ¬ rowsOf theme c ≠ [] := mt (hasRow_iff c).2 (Bool.eq_false_iff.1 h)
    rw [hr] at hnil
    exact absurd (List.cons_ne_nil _ _) hnil

/-- Nothing is seen of a document without rows. -/
theorem sight_of_count_eq_zero {d : Document} (h : d.count (Content.hasRow theme) = 0) :
    d.sight e theme = .none := by
  obtain ⟨bs⟩ := d
  induction bs with
  | nil => exact Document.sight_nil e theme
  | cons b bs ih =>
    rw [Document.count_cons, Nat.add_eq_zero_iff] at h
    have hb : b.content.hasRow theme = false := by
      cases hb : b.content.hasRow theme with
      | false => rfl
      | true => rw [hb] at h; cases h.1
    rw [Document.sight_cons, sight_of_not_hasRow hb, ih h.2, Sight.none_append]

/-- The content table shows the links, faces and shapes of the blocks, also if it has none. -/
theorem tableSight_eq (e : Engine) (theme : Theme) (d : Document) :
    ∃ text, tableSight e theme d = { d.sight e theme with text := text } := by
  rw [tableSight]
  split
  case isTrue h =>
    rw [sight_of_count_eq_zero h]
    exact ⟨_, rfl⟩
  case isFalse h => exact ⟨_, rfl⟩

/-- Each service offer with a button shows one face. -/
theorem length_faces (theme : Theme) (d : Document) :
    (d.faces theme).length = d.count Content.hasServiceButton := by
  obtain ⟨bs⟩ := d
  induction bs with
  | nil => rfl
  | cons b bs ih =>
    have hface : (b.content.faces theme).length = b.content.hasServiceButton.toNat := by
      cases b.content with
      | serviceOffer o =>
        rw [Content.faces, Content.hasServiceButton]
        cases Text.blank o.button.text <;> rfl
      | _ => rfl
    rw [Document.count_cons, ← ih, ← hface, Document.faces, List.flatMap_cons,
      List.length_append, Document.faces]

/-- **Every button is seen in one form.** The standard engines see the links of buttons, of both
kinds of offers and of images, and no shape; the legacy engine sees a shape instead of the link of
each service offer. Both forms of such a button show the same face: its link, its text, the colour
of its text and how it is filled. -/
theorem links_contentRows_render (d : Document) (s : DesignSettings) :
    ∃ standard legacy, contentRows? .standard (render d s) = some standard ∧
      contentRows? .legacy (render d s) = some legacy ∧
      linkCount standard = d.count Content.isButton + d.count Content.hasSalesButton +
        d.count Content.hasServiceButton + d.count Content.hasLinkedImage ∧
      (named "v:roundrect" standard).length = 0 ∧
      linkCount legacy = d.count Content.isButton + d.count Content.hasSalesButton +
        d.count Content.hasLinkedImage ∧
      (named "v:roundrect" legacy).length = d.count Content.hasServiceButton ∧
      anchorFaces standard = d.faces (.ofSettings s) ∧
      shapeFaces legacy = (d.faces (.ofSettings s)).map some := by
  obtain ⟨standard, hstandard, hs⟩ := shows_contentRows .standard d s
  obtain ⟨legacy, hlegacy, hl⟩ := shows_contentRows .legacy d s
  have hshapes : ∀ ns, (named "v:roundrect" ns).length = (shapeFaces ns).length :=
    fun _ => (List.length_map _).symm
  obtain ⟨_, hsight⟩ := tableSight_eq .standard (.ofSettings s) d
  rw [hsight] at hs
  obtain ⟨_, hsight⟩ := tableSight_eq .legacy (.ofSettings s) d
  rw [hsight] at hl
  refine ⟨standard, legacy, hstandard, hlegacy, ?_, ?_, hl.links, ?_, hs.faces, hl.shapes⟩
  · rw [hs.links, Nat.add_right_comm]
    rfl
  · rw [hshapes, hs.shapes]
    rfl
  · rw [hshapes, hl.shapes, Document.sight, List.length_map, length_faces]

end MailBlocks.Email
