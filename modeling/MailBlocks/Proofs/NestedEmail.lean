import MailBlocks.Proofs.SeenRows

/-!
# Emails are well formed

Every engine reads an email as a forest: each element that is opened is closed in its turn, also
where the marks of one engine stand between the tags of a table. The content table stands at the end
of a path of elements, and its rows are those of the blocks that have something to show, or one row
that says that there is nothing.

* `contentRows?`: what the content table contains.
* `seesRows_rows`: the rows of all blocks, and what they show.
* `reads_shell`: the forest of a whole email.
* `nodesOf_view_render`: emails are well formed, with one row for each block.
-/

namespace MailBlocks

open Email Markup

/-! ## What is expected -/

/-- Whether a block has a row: whether its markup is not empty. -/
def Content.hasRow (theme : Theme) (c : Content) : Bool :=
  printAll (rowsOf theme c) ≠ ""

namespace Document

/-- The number of blocks of a kind. -/
def count (p : Content → Bool) (d : Document) : Nat :=
  d.blocks.countP fun b => p b.content

/-- **The text that a document shows**, block by block. -/
def visibleText (d : Document) : List Char :=
  d.blocks.flatMap fun b => b.content.visibleText

/-- The faces of the buttons in two forms that a document shows. -/
def faces (theme : Theme) (d : Document) : List Face :=
  d.blocks.flatMap fun b => b.content.faces theme

/-- **What an engine sees of a document**: of the buttons of service offers, each engine sees one
form. -/
def sight (e : Engine) (theme : Theme) (d : Document) : Sight :=
  let plain := d.count Content.isButton + d.count Content.hasSalesButton +
    d.count Content.hasLinkedImage
  match e with
  | .standard =>
    ⟨unbroken d.visibleText, plain + d.count Content.hasServiceButton, d.faces theme, []⟩
  | .legacy => ⟨unbroken d.visibleText, plain, [], (d.faces theme).map some⟩

theorem count_cons (p : Content → Bool) (b : Block) (bs : List Block) :
    (mk (b :: bs)).count p = (p b.content).toNat + (mk bs).count p := by
  rw [count, List.countP_cons, Nat.add_comm, count]
  cases p b.content <;> rfl

theorem sight_nil (e : Engine) (theme : Theme) : (mk []).sight e theme = .none := by
  cases e <;> rfl

/-- The first block is seen before the others. -/
theorem sight_cons (e : Engine) (theme : Theme) (b : Block) (bs : List Block) :
    (mk (b :: bs)).sight e theme = b.content.sight e theme ++ (mk bs).sight e theme := by
  have htext : unbroken (mk (b :: bs)).visibleText =
      unbroken b.content.visibleText ++ unbroken (mk bs).visibleText := by
    rw [visibleText, List.flatMap_cons, unbroken_append, visibleText]
  have hfaces : (mk (b :: bs)).faces theme = b.content.faces theme ++ (mk bs).faces theme :=
    List.flatMap_cons
  cases e with
  | standard =>
    simp only [sight, Content.sight, Sight.append_def, htext, hfaces, count_cons,
      Sight.mk.injEq, List.append_nil, true_and, and_true]
    omega
  | legacy =>
    simp only [sight, Content.sight, Sight.append_def, htext, hfaces, count_cons, List.map_append,
      Sight.mk.injEq, List.append_nil, true_and, and_true]
    omega

end Document

namespace Markup

/-- Where the content table stands in the body. The legacy engine has a table around it. -/
def Engine.tablePath : Engine → List String
  | .standard => ["table"]
  | .legacy => ["table", "tr", "td", "table"]

/-- Where the content table stands. -/
def Engine.contentPath (e : Engine) : List String :=
  "html" :: "body" :: e.tablePath

/-- **What the content table of an email contains**, as an engine reads it. -/
def contentRows? (e : Engine) (html : String) : Option (List Node) :=
  (nodesOf (e.view html)).bind (descend e.contentPath)

/-- The number of rows that are not inside other elements. -/
def rowCount (ns : List Node) : Nat :=
  ns.countP fun
    | .element t _ => t.name = "tr"
    | .char _ => false

end Markup

namespace Email

variable {e : Engine} {theme : Theme}

/-! ## Rows -/

/-- Tokens that are read as a number of rows and show a sight. -/
def SeesRows (e : Engine) (ts : List Token) (x : Sight) (n : Nat) : Prop :=
  AllClean ts → ∃ ns, Reads e ts ns ∧ Shows ns x ∧ rowCount ns = n

theorem seesRows_nil : SeesRows e [] .none 0 :=
  fun _ => ⟨[], Reads.nil, Shows.nil, rfl⟩

theorem SeesRows.append {xs ys : List Token} {x y : Sight} {m n : Nat} (hx : SeesRows e xs x m)
    (hy : SeesRows e ys y n) : SeesRows e (xs ++ ys) (x ++ y) (m + n) := by
  intro hc
  obtain ⟨hcx, hcy⟩ := allClean_append.1 hc
  obtain ⟨ms, hms, hmx, hm⟩ := hx hcx
  obtain ⟨ns, hns, hny, hn⟩ := hy hcy
  refine ⟨ms ++ ns, hms.append hns, hmx.append hny, ?_⟩
  rw [rowCount, List.countP_append, ← rowCount, ← rowCount, hm, hn]

theorem seesRows_row {content : List Token} {x : Sight} (h : Sees e content x)
    (attributes : List Attribute) : SeesRows e (row attributes content) x 1 := by
  have hsplit : row attributes content =
      element "tr" [] ([Token.newline] ++ element "td" attributes content ++ [Token.newline]) ++
        [Token.newline] := by
    simp [row, element]
  intro hc
  obtain ⟨ns, hns, hx⟩ := h ((allClean_row _ _).1 hc).2
  have hread := (((Reads.newline.append (hns.element "td" attributes)).append
    Reads.newline).element "tr" []).append Reads.newline
  have hcell := hx.element (t := startTag "td" attributes) (by simp [startTag])
    (by simp [startTag])
  have hshow := (((Shows.newline.append hcell).append Shows.newline).element
    (t := startTag "tr" []) (by decide) (by decide)).append Shows.newline
  simp only [Sight.none_append, Sight.append_none] at hshow
  rw [hsplit]
  exact ⟨_, hread, hshow, rfl⟩

/-- The row of a block is empty only if there is none. -/
theorem hasRow_iff (c : Content) : c.hasRow theme ↔ rowsOf theme c ≠ [] := by
  rw [Content.hasRow, decide_eq_true_iff]
  refine not_congr ⟨fun hp => ?_, fun hr => by rw [hr]; rfl⟩
  rcases seesRow_rowsOf .standard theme c with ⟨hr, -⟩ | ⟨attributes, content, hr, -⟩
  · exact hr
  · have hchars := congrArg String.toList hp
    rw [hr, toList_printAll] at hchars
    simp [row, Token.print] at hchars

theorem seesRows_rowsOf (c : Content) :
    SeesRows e (rowsOf theme c) (c.sight e theme) (c.hasRow theme).toNat := by
  by_cases h : rowsOf theme c = []
  · have hno : c.hasRow theme = false := by
      rw [Bool.eq_false_iff, ne_eq, hasRow_iff, not_not]
      exact h
    rcases seesRow_rowsOf e theme c with ⟨-, hx⟩ | ⟨attributes, content, hr, -⟩
    · rw [h, hx, hno]
      exact seesRows_nil
    · rw [hr] at h
      cases h
  · have hyes : c.hasRow theme = true := (hasRow_iff c).2 h
    rcases seesRow_rowsOf e theme c with ⟨hr, -⟩ | ⟨attributes, content, hr, hx⟩
    · exact absurd hr h
    · rw [hr, hyes]
      exact seesRows_row hx attributes

/-- **The rows of all blocks are seen** in their order. -/
theorem seesRows_blocks (bs : List Block) :
    SeesRows e (bs.flatMap fun b => rowsOf theme b.content)
      ((Document.mk bs).sight e theme) ((Document.mk bs).count (Content.hasRow theme)) := by
  induction bs with
  | nil =>
    rw [Document.sight_nil]
    exact seesRows_nil
  | cons b bs ih =>
    have hrow : SeesRows e (rowsOf theme b.content) _ _ := seesRows_rowsOf b.content
    rw [Document.sight_cons, Document.count_cons]
    exact hrow.append ih

/-- There are no rows if no block has one. -/
theorem flatMap_rowsOf_eq_nil_iff (d : Document) :
    (d.blocks.flatMap fun b => rowsOf theme b.content) = [] ↔
      d.count (Content.hasRow theme) = 0 := by
  rw [List.flatMap_eq_nil_iff, Document.count, List.countP_eq_zero]
  refine forall₂_congr fun b _ => ?_
  rw [hasRow_iff, not_not]

/-- The row of an email without rows. -/
theorem seesRows_emptyRow : SeesRows e (emptyRow theme) (.ofText emptyText.toList) 1 :=
  seesRows_row (Sees.line emptyText) _

/-! ## The shell -/

open Token (doctype newline start empty stop text legacyStart legacyStop)

/-- The lines before the body are a declaration and the head, inside the document's element. -/
theorem headLines_eq : ∃ declaration attributes content,
    headLines = [doctype declaration, newline, start "html" attributes, newline] ++
      element "head" [] content ++ [newline] ∧
    '<' ∉ declaration.toList ∧ ∀ e, ∃ ns, Reads e content ns := by
  refine ⟨?declaration, ?attributes, [newline] ++ [empty "meta" ?type, newline] ++
    [empty "meta" ?policy, newline] ++ [empty "meta" ?viewport, newline] ++
    [empty "meta" ?edge, newline] ++ element "title" [] [] ++ [newline] ++
    ([legacyStart] ++ ([newline] ++ element "style" ?css [text legacyStyles] ++ [newline] ++
      element "noscript" [] (element "xml" [] (element "o:OfficeDocumentSettings" []
        (element "o:PixelsPerInch" [] [text "96"]))) ++ [newline]) ++ [legacyStop]) ++
    [newline] ++ element "style" ?css [text commonStyles] ++ [newline], ?split, ?lt, ?reads⟩
  case split =>
    simp only [headLines, metaLine, element, List.cons_append, List.nil_append]
    rfl
  case lt => decide
  case reads =>
    intro e
    have hmeta : ∀ as, Reads e [empty "meta" as, newline] _ :=
      fun as => (Reads.empty "meta" as).append Reads.newline
    have hoffice := ((((Reads.text (e := e) "96").element "o:PixelsPerInch" []).element
      "o:OfficeDocumentSettings" []).element "xml" []).element "noscript" []
    have hstyles := (Reads.text (e := e) legacyStyles).element "style" [.plain "type" "text/css"]
    have hlegacy := Reads.hiddenFrom .standard (by rfl)
      ((((Reads.newline.append hstyles).append Reads.newline).append hoffice).append Reads.newline)
    exact ⟨_, (((((((((Reads.newline.append (hmeta _)).append (hmeta _)).append (hmeta _)).append
      (hmeta _)).append (Reads.nil.element "title" [])).append Reads.newline).append
      hlegacy).append Reads.newline).append ((Reads.text commonStyles).element "style" _)).append
      Reads.newline⟩

/-- The body around the rows: the content table, inside another table for the legacy engine. -/
def bodyLines (ghost table : List Attribute) (rows : List Token) : List Token :=
  [newline, legacyStart, newline, start "table" ghost, start "tr" [], start "td" [],
    newline, legacyStop, newline] ++
  element "table" table ([newline] ++ rows) ++
  [newline, legacyStart, newline, stop "td", stop "tr", stop "table", newline, legacyStop,
    newline]

/-- **The content table is read where it stands.** Its outer table begins and ends between marks, so
that it is there for one engine and not for the other. -/
theorem reads_bodyLines {rows : List Token} {ns : List Node} (h : Reads e rows ns)
    (ghost table : List Attribute) :
    ∃ inner, Reads e (bodyLines ghost table rows) inner ∧
      descend e.tablePath inner = some (.char '\n' :: ns) := by
  have htable := (Reads.newline.append h).element "table" table
  cases e with
  | standard =>
    have hsplit : bodyLines ghost table rows = [newline] ++
        (legacyStart :: [newline, start "table" ghost, start "tr" [], start "td" [],
          newline] ++ [legacyStop]) ++ [newline] ++
        element "table" table ([newline] ++ rows) ++ [newline] ++
        (legacyStart :: [newline, stop "td", stop "tr", stop "table", newline] ++
          [legacyStop]) ++ [newline] := by
      simp [bodyLines]
    have hbefore : Reads .standard (legacyStart :: [newline, start "table" ghost,
        start "tr" [], start "td" [], newline] ++ [legacyStop]) [] :=
      Reads.hidden (by rfl)
    have hafter : Reads .standard (legacyStart :: [newline, stop "td", stop "tr",
        stop "table", newline] ++ [legacyStop]) [] :=
      Reads.hidden (by rfl)
    have hread := (((((Reads.newline.append hbefore).append Reads.newline).append htable).append
      Reads.newline).append hafter).append Reads.newline
    rw [hsplit]
    exact ⟨_, hread, rfl⟩
  | legacy =>
    have hsplit : bodyLines ghost table rows =
        [newline] ++ [legacyStart] ++ [newline] ++ element "table" ghost
          (element "tr" [] (element "td" [] ([newline] ++ [legacyStop] ++ [newline] ++
            element "table" table ([newline] ++ rows) ++ [newline] ++ [legacyStart] ++
            [newline]))) ++ [newline] ++ [legacyStop] ++ [newline] := by
      simp [bodyLines, element]
    have hstart : Reads .legacy [legacyStart] [] := Reads.mark (by decide)
    have hstop : Reads .legacy [legacyStop] [] := Reads.mark (by decide)
    have hcell := (((((Reads.newline.append hstop).append Reads.newline).append htable).append
      Reads.newline).append hstart).append Reads.newline
    have hread := ((((((Reads.newline.append hstart).append Reads.newline).append
      (((hcell.element "td" []).element "tr" []).element "table" ghost)).append
      Reads.newline).append hstop).append Reads.newline)
    rw [hsplit]
    exact ⟨_, hread, rfl⟩

/-- **An email is read as a forest** with the rows in its content table. -/
theorem reads_shell {rows : List Token} {ns : List Node}
    (h : Reads e (if rows.isEmpty then emptyRow theme else rows) ns) :
    ∃ forest, Reads e (shell theme rows) forest ∧
      descend e.contentPath forest = some (.char '\n' :: ns) := by
  obtain ⟨declaration, html, head, hhead, hlt, hreads⟩ := headLines_eq
  obtain ⟨hs, hhs⟩ := hreads e
  obtain ⟨body, ghost, table, hopening⟩ : ∃ body ghost table, openingLines theme =
      [start "body" body, newline, legacyStart, newline, start "table" ghost,
        start "tr" [], start "td" [], newline, legacyStop, newline, start "table" table,
        newline] := ⟨_, _, _, rfl⟩
  obtain ⟨inner, hinner, hpath⟩ := reads_bodyLines h ghost table
  have hsplit : shell theme rows = [doctype declaration] ++ [newline] ++ element "html" html
      ([newline] ++ element "head" [] head ++ [newline] ++
        element "body" body
          (bodyLines ghost table (if rows.isEmpty then emptyRow theme else rows)) ++
        [newline]) ++ [newline] := by
    simp [shell, hhead, hopening, closingLines, bodyLines, element]
  have hroot := ((((Reads.newline.append (hhs.element "head" [])).append Reads.newline).append
    (hinner.element "body" body)).append Reads.newline).element "html" html
  have hread := (((Reads.doctype hlt).append Reads.newline).append hroot).append Reads.newline
  refine ⟨_, hsplit ▸ hread, ?_⟩
  exact hpath

/-- What the content table of a document shows: its blocks, or that there is nothing to show. -/
def tableSight (e : Engine) (theme : Theme) (d : Document) : Sight :=
  if d.count (Content.hasRow theme) = 0 then .ofText emptyText.toList else d.sight e theme

/-- The number of rows of the content table of a document. -/
def tableRows (theme : Theme) (d : Document) : Nat :=
  if d.count (Content.hasRow theme) = 0 then 1 else d.count (Content.hasRow theme)

/-- **An email is well formed for every engine**, and its content table shows the document. -/
theorem contentRows_tokens (e : Engine) (d : Document) (s : DesignSettings) :
    ∃ forest rows, nodesOf (e.view (render d s)) = some forest ∧
      descend e.contentPath forest = some rows ∧
      Shows rows (tableSight e (.ofSettings s) d) ∧
      rowCount rows = tableRows (.ofSettings s) d := by
  obtain ⟨theme, htheme⟩ : ∃ theme, theme = Theme.ofSettings s := ⟨_, rfl⟩
  obtain ⟨rows, hrows⟩ : ∃ rows, rows = d.blocks.flatMap fun b => rowsOf theme b.content :=
    ⟨_, rfl⟩
  have htokens : tokens d s = shell theme rows := by rw [tokens, hrows, htheme]
  have hsees : SeesRows e (if rows.isEmpty then emptyRow theme else rows)
      (tableSight e theme d) (tableRows theme d) := by
    have hempty : rows = [] ↔ d.count (Content.hasRow theme) = 0 := by
      rw [hrows]
      exact flatMap_rowsOf_eq_nil_iff d
    rw [tableSight, tableRows]
    by_cases hnil : rows = []
    · rw [if_pos (hempty.1 hnil), if_pos (hempty.1 hnil), hnil]
      exact seesRows_emptyRow
    · have hcount := mt hempty.2 hnil
      rw [if_neg hcount, if_neg hcount, if_neg (by simpa using hnil), hrows]
      exact seesRows_blocks d.blocks
  have hclean := allClean_tokens d s
  rw [htokens] at hclean
  have hcontent : AllClean (if rows.isEmpty then emptyRow theme else rows) := by
    simp only [shell, allClean_append] at hclean
    exact hclean.1.2
  obtain ⟨ns, hns, hshows, hcount⟩ := hsees hcontent
  obtain ⟨forest, hforest, hpath⟩ := reads_shell hns
  have hnodes : nodesOf (e.view (render d s)) = some forest := by
    rw [render, htokens]
    exact hforest.nodesOf_view hclean
  have hnewline := Shows.newline.append hshows
  rw [Sight.none_append] at hnewline
  rw [← htheme]
  exact ⟨forest, _, hnodes, hpath, hnewline, hcount⟩

/-- **Emails are well formed.** As every engine sees an email, each tag that opens an element is
closed by its own end tag in its turn, and the content table has one row for each block with markup
that is not empty, or the one row that says that there is none. -/
theorem nodesOf_view_render (e : Engine) (d : Document) (s : DesignSettings) :
    ∃ forest rows, nodesOf (e.view (render d s)) = some forest ∧
      descend e.contentPath forest = some rows ∧
      if d.count (Content.hasRow (.ofSettings s)) = 0 then
        rowCount rows = 1 ∧ visible (textOf rows) = emptyText.toList
      else rowCount rows = d.count (Content.hasRow (.ofSettings s)) := by
  obtain ⟨forest, rows, hforest, hpath, hshows, hcount⟩ := contentRows_tokens e d s
  refine ⟨forest, rows, hforest, hpath, ?_⟩
  rw [tableRows] at hcount
  split
  case isTrue hnone =>
    rw [if_pos hnone] at hcount
    rw [tableSight, if_pos hnone] at hshows
    exact ⟨hcount, hshows.visible_textOf⟩
  case isFalse hsome =>
    rw [if_neg hsome] at hcount
    exact hcount

end Email

end MailBlocks
