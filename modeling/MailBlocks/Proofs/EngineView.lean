import MailBlocks.Proofs.CleanEmail

/-!
# What an engine sees

Conditional comments hide a part of the text from some engines: one pair of marks hides what is for
the legacy engine from the others, another pair hides from it what is for them. In printed tokens
only marks are marks, since names, values and texts hold no angle bracket.

* `Engine.view`: the text without what an engine does not see.
* `Engine.viewFrom_token`: other tokens are seen or passed over as a whole.
* `Engine.viewFrom_hidden`: tokens between marks are hidden.
-/

namespace MailBlocks.Markup

open Email

/-- **The engines.** The standard ones pass over what is marked for the legacy engine; that one
passes over what is marked for them. -/
inductive Engine where
  | standard
  | legacy
  deriving DecidableEq, Repr

namespace Engine

/-- The mark from which on an engine sees nothing. -/
def hideMark : Engine → String
  | standard => "<!--[if mso]>"
  | legacy => "<!--[if !mso]><!-- -->"

/-- The mark from which on it sees again. -/
def showMark : Engine → String
  | standard => "<![endif]-->"
  | legacy => "<!--<![endif]-->"

/-- The mark that ends what an engine sees, or what it does not see. -/
def mark (e : Engine) (hidden : Bool) : List Char :=
  (if hidden then e.showMark else e.hideMark).toList

/-- What an engine sees of a text, after passing over some characters of a mark. -/
def viewAfter (e : Engine) : Bool → Nat → List Char → List Char
  | _, _, [] => []
  | hidden, skip + 1, _ :: s => viewAfter e hidden skip s
  | hidden, 0, c :: s =>
    if (e.mark hidden).isPrefixOf (c :: s) then viewAfter e (!hidden) ((e.mark hidden).length - 1) s
    else if hidden then viewAfter e hidden 0 s
    else c :: viewAfter e hidden 0 s

/-- What an engine sees of some characters. -/
def viewFrom (e : Engine) (s : List Char) : List Char :=
  e.viewAfter false 0 s

/-- **What an engine sees of a text**: each part from the mark that hides to the next one that shows
is left out. -/
def view (e : Engine) (s : String) : String :=
  String.ofList (e.viewFrom s.toList)

example : standard.view "a<!--[if mso]><b/><![endif]-->c" = "ac" := by decide

/-! ## Passing over characters -/

theorem viewAfter_skip (e : Engine) (hidden : Bool) (w r : List Char) :
    e.viewAfter hidden w.length (w ++ r) = e.viewAfter hidden 0 r := by
  induction w with
  | nil => rfl
  | cons c w ih => exact ih

/-- At a mark, hiding begins or ends. -/
theorem viewAfter_mark (e : Engine) (hidden : Bool) (r : List Char) :
    e.viewAfter hidden 0 (e.mark hidden ++ r) = e.viewAfter (!hidden) 0 r := by
  obtain ⟨c, w, hm⟩ : ∃ c w, e.mark hidden = c :: w := by
    cases e <;> cases hidden <;> exact ⟨_, _, rfl⟩
  have hprefix : (e.mark hidden).isPrefixOf (c :: (w ++ r)) := by
    rw [List.isPrefixOf_iff_prefix, hm]
    exact ⟨r, rfl⟩
  rw [hm, List.cons_append, viewAfter, if_pos hprefix, hm]
  exact viewAfter_skip e _ w r

/-- What is seen of a part without marks: all of it, or nothing. -/
def part (hidden : Bool) (s : List Char) : List Char :=
  if hidden then [] else s

theorem part_append (hidden : Bool) (s t : List Char) :
    part hidden (s ++ t) = part hidden s ++ part hidden t := by
  cases hidden <;> rfl

/-- A character with which no mark begins is no part of one. -/
theorem viewAfter_cons {e : Engine} {hidden : Bool} {c : Char} {s : List Char}
    (h : ¬ (e.mark hidden).isPrefixOf (c :: s)) :
    e.viewAfter hidden 0 (c :: s) = part hidden [c] ++ e.viewAfter hidden 0 s := by
  rw [viewAfter, if_neg h]
  cases hidden <;> rfl

/-- All marks begin like notes. -/
theorem mark_eq (e : Engine) (hidden : Bool) : ∃ w, e.mark hidden = '<' :: '!' :: w := by
  cases e <;> cases hidden <;> exact ⟨_, rfl⟩

/-- Text without a `<` holds no mark. -/
theorem viewAfter_text {s : List Char} (h : '<' ∉ s) (e : Engine) (hidden : Bool)
    (r : List Char) :
    e.viewAfter hidden 0 (s ++ r) = part hidden s ++ e.viewAfter hidden 0 r := by
  induction s with
  | nil => cases hidden <;> rfl
  | cons c s ih =>
    simp only [List.mem_cons, not_or] at h
    have hmark : ¬ (e.mark hidden).isPrefixOf (c :: (s ++ r)) := by
      obtain ⟨w, hw⟩ := e.mark_eq hidden
      rw [hw, List.isPrefixOf_iff_prefix, List.cons_prefix_cons]
      exact fun hp => h.1 hp.1
    rw [List.cons_append, viewAfter_cons hmark, ih h.2, ← List.append_assoc, ← part_append,
      List.singleton_append]

/-- A tag that is no note is no mark. -/
theorem viewAfter_tag {c : Char} (hc : c ≠ '!') {s : List Char} (h : '<' ∉ c :: s) (e : Engine)
    (hidden : Bool) (r : List Char) :
    e.viewAfter hidden 0 ('<' :: c :: s ++ r) =
      part hidden ('<' :: c :: s) ++ e.viewAfter hidden 0 r := by
  have hmark : ¬ (e.mark hidden).isPrefixOf ('<' :: (c :: s ++ r)) := by
    obtain ⟨w, hw⟩ := e.mark_eq hidden
    rw [hw, List.isPrefixOf_iff_prefix, List.cons_append, List.cons_prefix_cons,
      List.cons_prefix_cons]
    exact fun hp => hc hp.2.1.symm
  rw [List.cons_append, viewAfter_cons hmark, viewAfter_text h, ← List.append_assoc,
    ← part_append, List.singleton_append]

end Engine

/-! ## Tokens -/

/-- The tokens of elements and texts: no marks, and nothing about the document. -/
def Token.isContent : Token → Bool
  | start _ _ | empty _ _ | stop _ | text _ | lineBreak => true
  | _ => false

theorem lt_not_mem_printedAttributes {as : List Attribute} (h : ∀ a ∈ as, a.Clean) :
    '<' ∉ printedAttributes as := by
  intro hm
  obtain ⟨a, ha, hm⟩ := List.mem_flatMap.1 hm
  have hname : '<' ∉ a.name.toList := (h a ha).word_name.not_mem (by decide)
  have hvalue : '<' ∉ a.value.toList := (h a ha).inert_value.not_mem (by decide)
  rw [a.toList_print] at hm
  simp [hname, hvalue] at hm

/-- Content prints as text or as a tag that is no note. -/
theorem Token.Clean.print_content {t : Token} (h : t.Clean) (ht : t.isContent) :
    '<' ∉ t.print.toList ∨
      ∃ c s, t.print.toList = '<' :: c :: s ∧ c ≠ '!' ∧ '<' ∉ c :: s := by
  -- a tag with a word in front and attributes behind it
  have hword : ∀ {n : String} {as : List Attribute} {e : List Char}, TagName n →
      CleanAttributes as → '<' ∉ e →
      t.print.toList = '<' :: (n.toList ++ (printedAttributes as ++ e)) →
      ∃ c s, t.print.toList = '<' :: c :: s ∧ c ≠ '!' ∧ '<' ∉ c :: s := by
    rintro n as e ⟨hn, -⟩ has he hp
    obtain ⟨c, s, hs⟩ := List.exists_cons_of_ne_nil hn.toList_ne_nil
    have hc : isWordMark c := hn.2 c (by rw [hs]; exact List.mem_cons_self)
    refine ⟨c, s ++ (printedAttributes as ++ e), by rw [hp, hs, List.cons_append], ?_, ?_⟩
    · rintro rfl
      exact absurd hc (by decide)
    · have hlt : '<' ∉ n.toList := hn.not_mem (by decide)
      rw [← List.cons_append, ← hs]
      simp [hlt, lt_not_mem_printedAttributes has, he]
  cases t with
  | start n as =>
    refine .inr (hword h.1 h.2 (e := ['>']) (by decide) ?_)
    simp [print, printedAttributes, String.toList_append, String.toList_join, List.flatMap_map]
  | empty n as =>
    cases as with
    | nil =>
      refine .inr (hword h.1 h.2 (e := ['/', '>']) (by decide) ?_)
      simp [print, printedAttributes]
    | cons a as =>
      refine .inr (hword h.1 h.2 (e := [' ', '/', '>']) (by decide) ?_)
      simp [print, printedAttributes, String.toList_append, String.toList_join, List.flatMap_map]
  | stop n =>
    obtain ⟨hn, -⟩ := h
    have hlt : '<' ∉ n.toList := hn.not_mem (by decide)
    refine .inr ⟨'/', n.toList ++ ['>'], by simp [print], by decide, by simp [hlt]⟩
  | text s => exact .inl (Inert.not_mem h (by decide))
  | lineBreak => exact .inr ⟨'b', "r />".toList, rfl, by decide, by decide⟩
  | doctype _ | legacyStart | legacyStop | modernStart | modernStop => cases ht

namespace Engine

/-- **Content is seen or passed over as a whole.** -/
theorem viewAfter_token {t : Token} (h : t.Clean) (ht : t.isContent) (e : Engine) (hidden : Bool)
    (r : List Char) :
    e.viewAfter hidden 0 (t.print.toList ++ r) =
      part hidden t.print.toList ++ e.viewAfter hidden 0 r := by
  rcases h.print_content ht with hlt | ⟨c, s, hp, hc, hlt⟩
  · exact viewAfter_text hlt e hidden r
  · rw [hp]
    exact viewAfter_tag hc hlt e hidden r

theorem viewFrom_token {t : Token} (h : t.Clean) (ht : t.isContent) (e : Engine) (r : List Char) :
    e.viewFrom (t.print.toList ++ r) = t.print.toList ++ e.viewFrom r :=
  e.viewAfter_token h ht false r

/-- Hidden content is passed over. -/
theorem viewAfter_hidden {ts : List Token} (h : AllClean ts) (ht : ts.all Token.isContent)
    (e : Engine) (r : List Char) :
    e.viewAfter true 0 ((printAll ts).toList ++ r) = e.viewAfter true 0 r := by
  rw [toList_printAll]
  induction ts with
  | nil => rfl
  | cons t ts ih =>
    obtain ⟨hc, hcs⟩ := allClean_cons.1 h
    rw [List.all_cons, Bool.and_eq_true] at ht
    rw [List.flatMap_cons, List.append_assoc, e.viewAfter_token hc ht.1, ih hcs ht.2]
    rfl

/-- The token of the mark that hides. -/
def hideToken : Engine → Token
  | standard => .legacyStart
  | legacy => .modernStart

/-- The token of the mark that shows again. -/
def showToken : Engine → Token
  | standard => .legacyStop
  | legacy => .modernStop

/-- **Content between its marks is hidden.** -/
theorem viewFrom_hidden {ts : List Token} (h : AllClean ts) (ht : ts.all Token.isContent)
    (e : Engine) (r : List Char) :
    e.viewFrom ((printAll (e.hideToken :: ts ++ [e.showToken])).toList ++ r) =
      e.viewFrom r := by
  have hhide : e.hideToken.print.toList = e.mark false := by cases e <;> rfl
  have hshow : e.showToken.print.toList = e.mark true := by cases e <;> rfl
  have hprint : (printAll (e.hideToken :: ts ++ [e.showToken])).toList ++ r =
      e.mark false ++ ((printAll ts).toList ++ (e.mark true ++ r)) := by
    rw [toList_printAll, toList_printAll, ← hhide, ← hshow]
    simp
  rw [hprint, viewFrom, viewAfter_mark, Bool.not_false, viewAfter_hidden h ht, viewAfter_mark,
    Bool.not_true, viewFrom]

/-- The marks of the other engine, which are seen as notes. -/
def otherMarks : Engine → List Token
  | standard => [.modernStart, .modernStop]
  | legacy => [.legacyStart, .legacyStop]

theorem viewFrom_otherMark {e : Engine} {t : Token} (h : t ∈ e.otherMarks) (r : List Char) :
    e.viewFrom (t.print.toList ++ r) = t.print.toList ++ e.viewFrom r := by
  cases e with
  | standard =>
    simp only [otherMarks, List.mem_cons, List.not_mem_nil, or_false] at h
    rcases h with rfl | rfl <;> rfl
  | legacy =>
    simp only [otherMarks, List.mem_cons, List.not_mem_nil, or_false] at h
    rcases h with rfl | rfl <;> rfl

/-- What a document declares about itself is seen. -/
theorem viewFrom_doctype {d : String} (h : '<' ∉ d.toList) (e : Engine) (r : List Char) :
    e.viewFrom ((Token.doctype d).print.toList ++ r) =
      (Token.doctype d).print.toList ++ e.viewFrom r := by
  have hprint : (Token.doctype d).print.toList =
      '<' :: ("!DOCTYPE ".toList ++ d.toList ++ ['>']) := by
    simp [Token.print]
  have hlt : '<' ∉ "!DOCTYPE ".toList ++ d.toList ++ ['>'] := by simp [h]
  have hmark : ¬ (e.mark false).isPrefixOf
      ('<' :: ("!DOCTYPE ".toList ++ d.toList ++ ['>'] ++ r)) := by
    cases e <;> exact Bool.false_ne_true
  rw [hprint, viewFrom, List.cons_append, viewAfter_cons hmark, viewAfter_text hlt]
  rfl

end Engine

end MailBlocks.Markup
