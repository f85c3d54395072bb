import MailBlocks.Proofs.EngineView

/-!
# Nested elements

A reader that finds a text well formed takes it for a forest: elements, each from its tag to the
end tag of the same name that closes it, with what stands between them as their children. Clean
tokens whose elements are nested are read as that forest, by each engine as far as it sees them.

* `nodesOf`: the forest of a text, if every element is closed in its turn.
* `Reads`: what an engine reads some tokens as.
* `Reads.element`, `Reads.hidden`: the forests of elements and of what is hidden.
-/

namespace MailBlocks.Markup

open Email Text

/-! ## The reader -/

/-- What a reader takes a text apart into. -/
inductive Piece where
  | char (c : Char)
  | tag (t : Tag)
  deriving DecidableEq, Repr

/-- The pieces of a text. Of a tag that has begun, it is known whether the reader is between double
quotes, and what was read. -/
def piecesAfter : Option (Bool × List Char) → List Char → List Piece
  | _, [] => []
  | none, c :: s =>
    if c = '<' then piecesAfter (some (false, [])) s else .char c :: piecesAfter none s
  | some (quoted, body), c :: s =>
    if c = '>' && !quoted then .tag (.ofBody body) :: piecesAfter none s
    else piecesAfter (some (quoted != (c = '"'), body ++ [c])) s

/-- The pieces of a text. -/
def pieces (s : List Char) : List Piece :=
  piecesAfter none s

/-- **A character, or an element** with what it contains. -/
inductive Node where
  | char (c : Char)
  | element (tag : Tag) (children : List Node)
  deriving Repr

/-- The forest of some pieces. The elements that are open come innermost first, each with what was
read before it; `done` is what was read in the innermost one. Notes are passed over. -/
def nodesAfter : List (Tag × List Node) → List Node → List Piece → Option (List Node)
  | opened, done, [] => if opened.isEmpty then some done else none
  | opened, done, .char c :: r => nodesAfter opened (done ++ [.char c]) r
  | opened, done, .tag t :: r =>
    match t.kind with
    | .note => nodesAfter opened done r
    | .empty => nodesAfter opened (done ++ [.element t []]) r
    | .start => nodesAfter ((t, done) :: opened) [] r
    | .stop =>
      match opened with
      | [] => none
      | (inner, before) :: outer =>
        if inner.name = t.name then nodesAfter outer (before ++ [.element inner done]) r else none

/-- **The forest of a text**, if each end tag closes the innermost element and all are closed. -/
def nodesOf (s : String) : Option (List Node) :=
  nodesAfter [] [] (pieces s.toList)

/-- What the first element with a name contains. -/
def content? (name : String) (ns : List Node) : Option (List Node) :=
  ns.findSome? fun
    | .element t children => if t.name = name then some children else none
    | .char _ => none

/-- **What the element at the end of a path contains**, from one element to the first with the next
name among its children. -/
def descend (path : List String) (ns : List Node) : Option (List Node) :=
  path.foldlM (fun ns name => content? name ns) ns

/-! ## Pieces of tokens -/

/-- A reader goes through text without a `>` in one tag. -/
theorem piecesAfter_append {s : List Char} (h : '>' ∉ s) (q : Bool) (body r : List Char) :
    piecesAfter (some (q, body)) (s ++ r) =
      piecesAfter (some (quotedAfter q s, body ++ s)) r := by
  induction s generalizing q body with
  | nil => simp [quotedAfter]
  | cons c s ih =>
    simp only [List.mem_cons, not_or] at h
    have hc : (decide (c = '>') && !q) = false := by simp [Ne.symm h.1]
    rw [List.cons_append, piecesAfter, hc, if_neg (by decide), ih h.2, List.append_assoc,
      List.singleton_append, quotedAfter, quotedAfter, List.foldl_cons]

theorem pieces_tag {s : List Char} (h : '>' ∉ s) (hq : quotedAfter false s = false)
    (r : List Char) : pieces ('<' :: (s ++ '>' :: r)) = .tag (.ofBody s) :: pieces r := by
  have hend : ∀ b, piecesAfter (some (false, b)) ('>' :: r) = .tag (.ofBody b) :: pieces r :=
    fun _ => rfl
  rw [pieces, piecesAfter, if_pos rfl, piecesAfter_append h, hq, List.nil_append, hend]

theorem pieces_text {s : List Char} (h : '<' ∉ s) (r : List Char) :
    pieces (s ++ r) = s.map .char ++ pieces r := by
  induction s with
  | nil => rfl
  | cons c s ih =>
    simp only [List.mem_cons, not_or] at h
    rw [List.cons_append, pieces, piecesAfter, if_neg (Ne.symm h.1), ← pieces, ih h.2]
    rfl

/-- The pieces that a token is read as. -/
def Token.pieces : Token → List Piece
  | text s => s.toList.map .char
  | t => t.tags.map .tag

/-- **Printed tokens are read back** as their pieces, whatever follows. -/
theorem pieces_print {t : Token} (h : t.Clean) (r : List Char) :
    Markup.pieces (t.print.toList ++ r) = t.pieces ++ Markup.pieces r := by
  rcases h.bodies with ⟨s, rfl⟩ | ⟨bodies, hp, ht, hbodies⟩
  · exact pieces_text (Inert.not_mem h (by decide)) r
  · have htags : t.pieces = t.tags.map .tag := by
      cases t with
      | text s =>
        cases bodies with
        | nil =>
          have hs : s.toList = [] := hp
          rw [Token.pieces, hs]
          rfl
        | cons b bodies => cases ht
      | _ => rfl
    rw [hp, htags, ht]
    clear hp ht htags
    induction bodies with
    | nil => rfl
    | cons b bodies ih =>
      obtain ⟨⟨hgt, hq⟩, hrest⟩ := List.forall_mem_cons.1 hbodies
      have happ : (b :: bodies).flatMap (fun b => '<' :: (b ++ ['>'])) ++ r =
          '<' :: (b ++ '>' :: (bodies.flatMap (fun b => '<' :: (b ++ ['>'])) ++ r)) := by
        simp
      rw [happ, pieces_tag hgt hq, ih hrest]
      rfl

/-! ## Forests of tokens -/

/-- The tag that begins an element. -/
def startTag (name : String) (attributes : List Attribute) : Tag :=
  ⟨.start, name, attributes.map fun a => (a.name, a.value)⟩

theorem nodesAfter_chars (s : List Char) (opened : List (Tag × List Node)) (done : List Node)
    (r : List Piece) :
    nodesAfter opened done (s.map .char ++ r) = nodesAfter opened (done ++ s.map .char) r := by
  induction s generalizing done with
  | nil => rw [List.map_nil, List.nil_append, List.map_nil, List.append_nil]
  | cons c s ih =>
    rw [List.map_cons, List.cons_append, nodesAfter, ih, List.map_cons, List.append_assoc,
      List.singleton_append]

/-- **What an engine reads some tokens as**, wherever they stand and whatever follows. -/
def Reads (e : Engine) (ts : List Token) (ns : List Node) : Prop :=
  AllClean ts → ∀ opened done r,
    nodesAfter opened done (pieces (e.viewFrom ((printAll ts).toList ++ r))) =
      nodesAfter opened (done ++ ns) (pieces (e.viewFrom r))

/-- A text that prints tokens is read as their forest. -/
theorem Reads.nodesOf_view {e : Engine} {ts : List Token} {ns : List Node} (h : Reads e ts ns)
    (hc : AllClean ts) : nodesOf (e.view (printAll ts)) = some ns := by
  have hread := h hc [] [] []
  rw [List.append_nil, List.nil_append] at hread
  rw [nodesOf, Engine.view, String.toList_ofList, hread]
  rfl

namespace Reads

variable {e : Engine} {xs ys : List Token} {ms ns : List Node}

theorem nil : Reads e [] [] := by
  intro _ opened done r
  rw [List.append_nil]
  rfl

theorem append (hx : Reads e xs ms) (hy : Reads e ys ns) : Reads e (xs ++ ys) (ms ++ ns) := by
  intro hc opened done r
  obtain ⟨hcx, hcy⟩ := allClean_append.1 hc
  have hprint : (printAll (xs ++ ys)).toList ++ r =
      (printAll xs).toList ++ ((printAll ys).toList ++ r) := by
    simp [toList_printAll]
  rw [hprint, hx hcx, hy hcy, List.append_assoc]

/-- A token that is seen is read as its pieces say. -/
theorem seen {t : Token}
    (hview : t.Clean → ∀ r,
      e.viewFrom (t.print.toList ++ r) = t.print.toList ++ e.viewFrom r)
    (h : ∀ opened done r,
      nodesAfter opened done (t.pieces ++ r) = nodesAfter opened (done ++ ns) r) :
    Reads e [t] ns := by
  intro hc opened done r
  have hclean : t.Clean := hc t List.mem_cons_self
  have hprint : (printAll [t]).toList = t.print.toList := by simp [toList_printAll]
  rw [hprint, hview hclean, pieces_print hclean, h]

theorem token {t : Token} (ht : t.isContent)
    (h : ∀ opened done r,
      nodesAfter opened done (t.pieces ++ r) = nodesAfter opened (done ++ ns) r) :
    Reads e [t] ns :=
  seen (fun hclean => e.viewFrom_token hclean ht) h

theorem text (s : String) : Reads e [.text s] (s.toList.map .char) :=
  token rfl fun opened done r => nodesAfter_chars s.toList opened done r

theorem newline : Reads e [Token.newline] [.char '\n'] := text "\n"

theorem empty (name : String) (attributes : List Attribute) :
    Reads e [.empty name attributes]
      [.element ⟨.empty, name, attributes.map fun a => (a.name, a.value)⟩ []] :=
  token rfl fun _ _ _ => rfl

theorem lineBreak : Reads e [.lineBreak] [.element ⟨.empty, "br", []⟩ []] :=
  token rfl fun _ _ _ => rfl

/-- **An element is read** as what its tag says, with what its content is read as. -/
theorem element (h : Reads e xs ns) (name : String) (attributes : List Attribute) :
    Reads e (Markup.element name attributes xs)
      [.element (startTag name attributes) ns] := by
  intro hc opened done r
  obtain ⟨hname, hattributes, hcontent⟩ := (allClean_element name attributes xs).1 hc
  have hstart : (Token.start name attributes).Clean := ⟨hname, hattributes⟩
  have hstop : (Token.stop name).Clean := hname
  have hprint : (printAll (Markup.element name attributes xs)).toList ++ r =
      (Token.start name attributes).print.toList ++
        ((printAll xs).toList ++ ((Token.stop name).print.toList ++ r)) := by
    simp [Markup.element, toList_printAll]
  have hopen : ∀ t : List Piece, nodesAfter opened done
      ((Token.start name attributes).pieces ++ t) =
        nodesAfter ((startTag name attributes, done) :: opened) [] t :=
    fun _ => rfl
  have hclose : ∀ (tag : Tag) (t : List Piece), tag.name = name →
      nodesAfter ((tag, done) :: opened) ns ((Token.stop name).pieces ++ t) =
        nodesAfter opened (done ++ [.element tag ns]) t := by
    rintro tag t rfl
    exact if_pos rfl
  rw [hprint, e.viewFrom_token hstart rfl, pieces_print hstart, hopen, h hcontent,
    e.viewFrom_token hstop rfl, pieces_print hstop, List.nil_append, hclose _ _ rfl]

/-- Marks that hide nothing from an engine are passed over. -/
theorem mark {t : Token} (ht : t ∈ e.otherMarks) : Reads e [t] [] := by
  refine seen (fun _ => Engine.viewFrom_otherMark ht) fun opened done r => ?_
  rw [List.append_nil]
  cases e with
  | standard =>
    simp only [Engine.otherMarks, List.mem_cons, List.not_mem_nil, or_false] at ht
    rcases ht with rfl | rfl <;> rfl
  | legacy =>
    simp only [Engine.otherMarks, List.mem_cons, List.not_mem_nil, or_false] at ht
    rcases ht with rfl | rfl <;> rfl

/-- So is what a document declares about itself. -/
theorem doctype {d : String} (h : '<' ∉ d.toList) : Reads e [.doctype d] [] := by
  refine seen (fun _ => e.viewFrom_doctype h) fun opened done r => ?_
  rw [List.append_nil]
  rfl

/-- **What an engine does not see is not read.** -/
theorem hidden (ht : xs.all Token.isContent) :
    Reads e (e.hideToken :: xs ++ [e.showToken]) [] := by
  intro hc opened done r
  have hcontent : AllClean xs := (allClean_cons.1 (allClean_append.1 hc).1).2
  rw [Engine.viewFrom_hidden hcontent ht, List.append_nil]

/-- **What is hidden from one engine is read by the other.** -/
theorem hiddenFrom (f : Engine) (ht : xs.all Token.isContent) (h : Reads e xs ns) :
    Reads e (f.hideToken :: xs ++ [f.showToken]) (if e = f then [] else ns) := by
  by_cases hf : e = f
  · subst hf
    rw [if_pos rfl]
    exact hidden ht
  · have hhide : f.hideToken ∈ e.otherMarks := by
      revert hf
      cases e <;> cases f <;> decide
    have hshow : f.showToken ∈ e.otherMarks := by
      revert hf
      cases e <;> cases f <;> decide
    have hread := ((mark hhide).append h).append (mark hshow)
    rw [List.nil_append, List.append_nil] at hread
    rw [if_neg hf]
    exact hread

end Reads

end MailBlocks.Markup
